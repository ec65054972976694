import ZeromqAgent.ReplyLoop
import ZeromqAgent.Theory.Parties

/-!
# The loops as parties

The loops of `req_rep_client`, `req_rep_server` and `req_rep_worker`, with
their objects and memory, as parties of a network that knows of them how
their calls turn out. In the loops any calls can turn out in any way.
-/

namespace ZeromqAgent

open Parties Transition Turns

namespace RequestLoop

/-! ## The loop of a client -/

/-- The request of an iteration, and how its calls turn out. -/
def Iteration.calls (it : Iteration) : Round Bytes :=
  ⟨it.message, it.send.errno.isSome, it.receive.errno.isSome⟩

def Request.message (r : Request) : Bytes := r.2.getD []

theorem map_rounds {υ : Type} (f : Bytes → υ) (its : List Iteration) :
    (rounds its).map (Round.map fun r => f r.message) = its.map fun it => it.calls.map f := by
  have hround : (Round.map fun r : Request => f r.message) ∘
      (fun p : Iteration × ℕ => p.1.round p.2) =
        (fun it : Iteration => it.calls.map f) ∘ Prod.fst := rfl
  rw [rounds, List.map_map, hround, ← List.map_map, List.zipIdx_map_fst]

variable {strerror : Errno → String}

/-- If the calls of a loop turn out as those of a party between two
iterations did, the loop has reported what the party's socket has accepted,
and got the replies in the order of the requests. -/
theorem reports_of_calls {υ : Type} (f : Bytes → υ) {impl : Impl} {heap : Heap}
    {its : List Iteration} {t : Loop} (ht : run (iterate strerror) (.start impl heap) its = some t)
    {n : ℕ} {ks : List (Ask υ)} {q : Parties.Requester υ}
    (hr : run Parties.Requester.step (.start n) ks = some q) (hphase : q.receiving = false)
    (hcalls : (its.map fun it => it.calls.map f) = (asked ks).1) :
    q.left + its.length = n ∧ q.outstanding = t.client.outstanding.isSome ∧
      q.accepted = (accepted t.reports).map (fun r => f r.message) ∧
      accepted t.reports = replied t.reports ++ t.client.outstanding.toList := by
  obtain ⟨hleft, houtstanding, haccepted⟩ := rounds_of_run hr hphase
  obtain ⟨hreports, hafter⟩ := run_rounds ht
  have houtcomes := outcomes_map (fun r : Request => f r.message) none (rounds its)
  have hrest := after_map (fun r : Request => f r.message) none (rounds its)
  rw [map_rounds, hcalls, Option.map_none] at houtcomes hrest
  refine ⟨?_, ?_, ?_, ?_⟩
  · rwa [← hcalls, List.length_map] at hleft
  · rw [houtstanding, hrest, Option.isSome_map, hafter]
  · rw [haccepted, houtcomes, accepted_map, hreports]
  · rw [hreports, hafter, ← balance, Option.toList_none, List.nil_append]

/-- An iteration whose calls turn out so, with memory to spare. -/
def playing (index : Fin 3) (sendFails receiveFails : Bool) : Iteration where
  index := index
  block := 1
  last := 0
  send := ⟨none, if sendFails then some .eintr else none⟩
  receive := ⟨none, if receiveFails then .error .eintr else .ok (2, [])⟩

theorem calls_playing (index : Fin 3) (sendFails receiveFails : Bool) :
    (playing index sendFails receiveFails).calls =
      ⟨messages[index].toUTF8.data.toList, sendFails, receiveFails⟩ := by
  cases sendFails <;> cases receiveFails <;> rfl

theorem printable_playing (index : Fin 3) (sendFails receiveFails : Bool) (a : Addr)
    (bytes : Bytes) (h : (playing index sendFails receiveFails).receive.recv = .ok (a, bytes)) :
    Printable bytes := by
  cases receiveFails with
  | false =>
      obtain ⟨rfl, rfl⟩ := Prod.mk.inj (Except.ok.inj h)
      decide
  | true => cases h

theorem unprintable_of_error {q q' : Requester} {heap heap' : Heap} {r : ReceiveCalls}
    {e : Exception} (h : q.receive strerror heap r = (.error e, q', heap')) :
    ∃ a bytes, r.recv = .ok (a, bytes) ∧ ¬ Printable bytes := by
  rcases hp : ClientImpl.receive strerror q.impl heap (q.receiveCalls r) with ⟨e | message, c, left⟩
  · have herror : (Role.receive strerror .client q.impl heap (q.receiveCalls r)).1 = .error e :=
      congrArg Prod.fst hp
    obtain ⟨a, bytes, hr, hlong⟩ := receive_of_error strerror herror
    unfold Requester.receiveCalls at hr
    split at hr
    · exact ⟨a, bytes, hr, hlong⟩
    · cases hr
  · simp [Requester.receive, hp, Except.map] at h

theorem exists_iterate (strerror : Errno → String) {s : Loop} (hs : s.heap = fun _ => none)
    (index : Fin 3) (sendFails receiveFails : Bool) :
    ∃ t, iterate strerror s (playing index sendFails receiveFails) = some t := by
  let it := playing index sendFails receiveFails
  have hfree : it.block ≠ 0 ∧ s.heap it.block = none := ⟨Nat.one_ne_zero, by rw [hs]⟩
  have hplaced : it.receive.placed (Storage.put s.heap it.block (it.message ++ [it.last])) =
      true := by
    cases receiveFails <;> simp [it, playing, ReceiveCalls.placed, Storage.put, hs]
  unfold iterate
  rw [if_pos hfree, ofString_message, Option.bind_some]
  dsimp only
  rw [if_pos hplaced]
  split
  · next hreceive =>
      obtain ⟨a, bytes, hr, hlong⟩ := unprintable_of_error hreceive
      exact (hlong (printable_playing index sendFails receiveFails a bytes hr)).elim
  · exact ⟨_, rfl⟩

/-- One of the messages of the program. -/
def Drawn (request : Bytes) : Prop := ∃ i : Fin 3, messages[i].toUTF8.data.toList = request

/-- Whatever messages are drawn and however the calls are to turn out, there
is a run of the loop like that. -/
theorem exists_run (strerror : Errno → String) (impl : Impl) {p : List (Round Bytes)}
    (hp : ∀ r ∈ p, Drawn r.request) :
    ∃ its t, run (iterate strerror) (.start impl fun _ => none) its = some t ∧
      its.map Iteration.calls = p := by
  suffices h : ∀ s : Loop, (s.heap = fun _ => none) → ∃ its t,
      run (iterate strerror) s its = some t ∧ its.map Iteration.calls = p from
    h (.start impl fun _ => none) rfl
  induction p with
  | nil => exact fun s _ => ⟨[], s, rfl, rfl⟩
  | cons r p ih =>
      intro s hs
      obtain ⟨i, hi⟩ := hp r List.mem_cons_self
      obtain ⟨t, ht⟩ := exists_iterate strerror hs i r.sendFails r.receiveFails
      obtain ⟨its, u, hu, hcalls⟩ := ih (fun r hr => hp r (List.mem_cons_of_mem _ hr)) t
        ((iterate_heap ht).trans hs)
      refine ⟨playing i r.sendFails r.receiveFails :: its, u,
        run_cons_eq_some.mpr ⟨t, ht, hu⟩, ?_⟩
      rw [List.map_cons, calls_playing, hi, hcalls]

end RequestLoop

namespace ReplyLoop

open Replies

/-! ## The loop of a server or a worker -/

def Iteration.replyFails (role : Role) (it : Iteration) : Bool :=
  match role with
  | .client => it.send.errno.isSome
  | .server => it.send.send.isSome

theorem replyFails_iff {role : Role} {it : Iteration} :
    it.replyFails role = true ↔ ¬ it.Replies role := by
  cases role <;> simp [Iteration.replyFails, Iteration.Replies, Option.isSome_iff_ne_none]

/-- Whether the receive of an iteration succeeds, if the socket lets it, and
whether its reply fails. -/
def Iteration.calls (role : Role) (it : Iteration) : Bool × Bool :=
  (it.init.isNone && it.recv.isOk, it.replyFails role)

theorem receives_iff {role : Role} {it : Iteration} :
    (it.calls role).1 = true ↔ it.Receives := by
  simp [Iteration.calls, Iteration.Receives]

def loopCalls (role : Role) (as : List Action) : List (Bool × Bool) :=
  as.filterMap fun
    | .arrive _ => none
    | .iterate it => some (it.calls role)

/-- How many requests the loop has received, and whether the last is
unanswered. -/
def Loop.served (s : Loop) : ℕ × Bool := (s.desk.received.length, s.desk.unanswered.isSome)

variable {strerror : Errno → String} {role : Role}

theorem served_iterate {s t : Loop} {it : Iteration} (htype : s.impl.type = .reply)
    (h : iterate strerror role s it = some t) :
    t.served = serveCalls s.served (it.calls role) := by
  obtain ⟨-, ⟨hdesk, -, hnot⟩ | ⟨hreceives, m, desk, hm, -, hreply⟩⟩ := iterate_cases htype h
  · have hwhy : s.served.2 = true ∨ (it.calls role).1 = false := by
      by_contra hboth
      obtain ⟨hfree, hcall⟩ := not_or.mp hboth
      refine hnot ⟨?_, receives_iff.mp (eq_true_of_ne_false hcall)⟩
      simpa [Loop.served] using hfree
    rw [serveCalls, if_pos hwhy, Loop.served, hdesk]
    rfl
  · obtain ⟨hnone, rest, -, rfl⟩ := Desk.receive_eq_some hm
    have hgoes : ¬ (s.served.2 = true ∨ (it.calls role).1 = false) := by
      simp [Loop.served, hnone, receives_iff.mpr hreceives]
    rw [serveCalls, if_neg hgoes]
    rcases hreply with ⟨hok, hdesk, -⟩ | ⟨hfails, hdesk, -⟩
    · have hfails : it.replyFails role = false :=
        eq_false_of_ne_true fun hfails => replyFails_iff.mp hfails hok
      simp [Loop.served, Iteration.calls, hfails, hdesk, Desk.reply]
    · simp [Loop.served, Iteration.calls, replyFails_iff.mpr hfails, hdesk]

/-- If the calls of a loop turn out as those of a party between two
iterations did, whatever requests came to it and when, it has received as
many of them as the party, and has left the last unanswered if the party
has; the others it has answered. The string of each could be built. -/
theorem received_of_calls {impl : Impl} (htype : impl.type = .reply) {heap : Heap}
    {as : List Action} {t : Loop}
    (ht : run (step strerror role) (.start impl heap) as = some t) {m : ℕ} {ks : List Serve}
    {q : Replier} (hr : run Replier.step (.start m) ks = some q) (hstage : q.stage = .receiving)
    (hcalls : loopCalls role as = (servings ks).1) :
    q.left + (loopCalls role as).length = m ∧ q.received = t.desk.received.length ∧
      q.unanswered = t.desk.unanswered.isSome ∧ t.desk.Accounts ∧
      ∀ request ∈ t.desk.received, Printable request := by
  have hinv : Inv role impl t ∧ t.served = Parties.served (loopCalls role as) := by
    refine run_history (P := fun as t => Inv role impl t ∧
      t.served = Parties.served (loopCalls role as)) ht ⟨inv_start role htype heap, rfl⟩ ?_
    rintro as a s t ⟨hs, hserved⟩ h
    refine ⟨inv_step role impl h hs, ?_⟩
    cases a with
    | arrive request =>
        obtain rfl := Option.some.inj h
        simpa [loopCalls, Loop.served, Desk.arrive] using hserved
    | iterate it =>
        have hsnoc : loopCalls role (as ++ [.iterate it]) =
            loopCalls role as ++ [it.calls role] := by
          simp [loopCalls]
        rw [hsnoc, served_snoc, ← hserved]
        exact served_iterate hs.type h
  obtain ⟨hi, hserved⟩ := hinv
  obtain ⟨hleft, hdesk⟩ := served_of_run hr hstage
  rw [← hcalls] at hleft hdesk
  rw [← hserved] at hdesk
  obtain ⟨hreceived, hunanswered⟩ := Prod.mk.inj hdesk
  exact ⟨hleft, hreceived, hunanswered, hi.accounts, hi.printable⟩

/-- An iteration whose calls turn out so, with memory to spare. -/
def serving (calls : Bool × Bool) : Iteration where
  init := none
  recv := if calls.1 then .ok 2 else .error .eintr
  block := 1
  last := 0
  send := ⟨none, if calls.2 then some .eintr else none⟩

theorem calls_serving (role : Role) (calls : Bool × Bool) : (serving calls).calls role = calls := by
  obtain ⟨_ | _, _ | _⟩ := calls <;> cases role <;> rfl

/-- With a request come in, no call of the iteration waits, and what it
receives is one of those that came in. -/
theorem receive_serving (calls : Bool × Bool) (desk : Desk Bytes) (request : Bytes) :
    ∃ r desk', (serving calls).receive (desk.arrive request) = some (r, desk') ∧
      r.placed (fun _ => none) = true ∧
      ∀ a m, r.recv = .ok (a, m) → m ∈ desk.inbound ++ [request] := by
  obtain ⟨inbound, unanswered, _, _, _⟩ := desk
  cases unanswered with
  | some u => exact ⟨_, _, rfl, rfl, nofun⟩
  | none =>
      obtain ⟨_ | _, fails⟩ := calls
      · exact ⟨_, _, rfl, rfl, nofun⟩
      · cases inbound with
        | nil =>
            refine ⟨_, _, rfl, rfl, ?_⟩
            rintro a m ⟨⟩
            exact List.mem_cons_self
        | cons m' rest =>
            refine ⟨_, _, rfl, rfl, ?_⟩
            rintro a m ⟨⟩
            exact List.mem_cons_self

theorem exists_iterate (strerror : Errno → String) (role : Role) {s : Loop}
    (hs : s.impl.type = .reply) (hheap : s.heap = fun _ => none) (request : Bytes)
    (hprintable : ∀ m ∈ s.desk.inbound ++ [request], Printable m) (calls : Bool × Bool) :
    ∃ t, iterate strerror role { s with desk := s.desk.arrive request } (serving calls) =
      some t := by
  obtain ⟨r, desk, hr, hplaced, hmem⟩ := receive_serving calls s.desk request
  rw [← hheap] at hplaced
  rcases hp : role.receive strerror s.impl s.heap r with ⟨e | message, c, heap⟩
  · obtain ⟨a, m, hm, hlong⟩ := RequestLoop.receive_of_error strerror (congrArg Prod.fst hp)
    exact (hlong (hprintable m (hmem a m hm))).elim
  · obtain ⟨-, hkept, -⟩ := RequestLoop.receive_of_ok strerror (by simp [hs]) hp
    have hfree : (serving calls).block ≠ 0 ∧ heap (serving calls).block = none :=
      ⟨Nat.one_ne_zero, by rw [hkept hplaced, hheap]⟩
    unfold iterate
    rw [hr, Option.bind_some]
    dsimp only
    rw [if_pos hplaced, hp]
    cases message with
    | none => exact ⟨_, rfl⟩
    | some message =>
        dsimp only [Loop.answer]
        rw [if_pos hfree, ofString_reply]
        exact ⟨_, rfl⟩

/-- An iteration lets no request in, and passes over none. -/
theorem arrived_iterate {s t : Loop} {it : Iteration} (htype : s.impl.type = .reply)
    (h : iterate strerror role s it = some t) :
    t.desk.arrived = s.desk.arrived ∧ t.desk.inbound <:+ s.desk.inbound := by
  obtain ⟨-, ⟨hdesk, -, -⟩ | ⟨-, m, desk, hm, -, hreply⟩⟩ := iterate_cases htype h
  · rw [hdesk]
    exact ⟨rfl, List.suffix_refl _⟩
  · obtain ⟨-, rest, hrest, rfl⟩ := Desk.receive_eq_some hm
    rw [hrest]
    rcases hreply with ⟨-, hdesk, -⟩ | ⟨-, hdesk, -⟩
    · rw [hdesk]
      exact ⟨rfl, List.suffix_cons m rest⟩
    · rw [hdesk]
      exact ⟨rfl, List.suffix_cons m rest⟩

/-- Whatever requests are to come, one before each iteration and none too
long for the string that is printed, and however the calls are to turn out,
there is a run of the loop like that. -/
theorem exists_run (strerror : Errno → String) (role : Role) {impl : Impl}
    (htype : impl.type = .reply) (p : List (Bytes × Bool × Bool))
    (hp : ∀ request ∈ p.map Prod.fst, Printable request) :
    ∃ as t, run (step strerror role) (.start impl fun _ => none) as = some t ∧
      loopCalls role as = p.map Prod.snd ∧ t.desk.arrived = p.map Prod.fst := by
  suffices h : ∀ s : Loop, s.impl.type = .reply → (s.heap = fun _ => none) →
      (∀ m ∈ s.desk.inbound, Printable m) →
      ∃ as t, run (step strerror role) s as = some t ∧ loopCalls role as = p.map Prod.snd ∧
        t.desk.arrived = s.desk.arrived ++ p.map Prod.fst from
    h (.start impl fun _ => none) htype rfl nofun
  induction p with
  | nil => exact fun s _ _ _ => ⟨[], s, rfl, rfl, (List.append_nil _).symm⟩
  | cons call p ih =>
      intro s hs hheap hinbound
      obtain ⟨request, calls⟩ := call
      rw [List.map_cons, List.forall_mem_cons] at hp
      have hall : ∀ m ∈ s.desk.inbound ++ [request], Printable m :=
        List.forall_mem_append.mpr ⟨hinbound, List.forall_mem_singleton.mpr hp.1⟩
      obtain ⟨t, ht⟩ := exists_iterate strerror role hs hheap request hall calls
      have hs' : ({ s with desk := s.desk.arrive request } : Loop).impl.type = .reply := hs
      obtain ⟨hsame, hleft⟩ := arrived_iterate hs' ht
      obtain ⟨as, u, hu, hcalls, harrived⟩ := ih hp.2 t (iterate_cases hs' ht).1
        ((iterate_heap hs' ht).trans hheap) fun m hm => hall m (hleft.mem hm)
      refine ⟨.arrive request :: .iterate (serving calls) :: as, u, ?_, ?_, ?_⟩
      · exact run_cons_eq_some.mpr ⟨_, rfl, run_cons_eq_some.mpr ⟨t, ht, hu⟩⟩
      · have hcons : loopCalls role (.arrive request :: .iterate (serving calls) :: as) =
            (serving calls).calls role :: loopCalls role as := rfl
        rw [hcons, calls_serving, hcalls]
        rfl
      · have harrive : (s.desk.arrive request).arrived = s.desk.arrived ++ [request] := rfl
        rw [harrived, hsame, harrive, List.append_assoc]
        rfl

end ReplyLoop

end ZeromqAgent
