import ZeromqAgent.RequestReply
import ZeromqAgent.Theory.Stations

/-!
# Request and reply agreement

Each client has at most one request under way, so the whole system is a
network of queues through which one ticket per client travels: from the
client through the broker to a worker and back. A ticket remembers what
its client sent, who served it and what the client took. Every queue of
the system lists exactly the tickets that wait in it, and agreement is a
property of the tickets.
-/

namespace ZeromqAgent.RequestReply

open BrokerLoop Framing Transition Stations

/-! ## Tickets -/

inductive Stop (C W : Type) where
  | toRouter (c : C)
  | asking
  | toWorker (w : W)
  | serving (w : W)
  | toDealer (w : W)
  | answering
  | toClient (c : C)
  deriving DecidableEq

def Stop.served {C W : Type} : Stop C W → Bool
  | .toRouter _ | .asking | .toWorker _ => false
  | .serving _ | .toDealer _ | .answering | .toClient _ => true

structure Ticket (C W : Type) where
  place : Option (Stop C W)
  sent : List Bytes
  served : List (W × Bytes)
  taken : List Bytes

variable {C W : Type}

namespace Ticket

def start : Ticket C W := ⟨none, [], [], []⟩

def request (t : Ticket C W) : Bytes := t.sent.getLastD []

def replies (answer : W → Bytes → Bytes) (t : Ticket C W) : List Bytes :=
  t.served.map fun h => answer h.1 h.2

def reply (answer : W → Bytes → Bytes) (t : Ticket C W) : Bytes := (t.replies answer).getLastD []

/-- The ticket of client `c` is consistent: the served requests are the
sent ones in order, the taken replies answer the served requests in
order, and at most the last of each is missing, as its place says. -/
structure Ok (answer : W → Bytes → Bytes) (c : C) (t : Ticket C W) : Prop where
  served_sent : t.served.map Prod.snd <+: t.sent
  taken_replies : t.taken <+: t.replies answer
  sent_length : t.sent.length = t.taken.length + if t.place.isSome then 1 else 0
  served_length : t.served.length = t.taken.length + if t.place.any Stop.served then 1 else 0
  own : ∀ c', t.place = some (.toRouter c') ∨ t.place = some (.toClient c') → c' = c
  worker : ∀ w, t.place = some (.serving w) → t.reply answer = answer w t.request

theorem ok_start (answer : W → Bytes → Bytes) (c : C) : (start : Ticket C W).Ok answer c where
  served_sent := List.prefix_rfl
  taken_replies := List.prefix_rfl
  sent_length := rfl
  served_length := rfl
  own := by simp [start]
  worker := by simp [start]

theorem eq_snoc_getLastD {α : Type} {l m : List α} (h : l <+: m) (hlen : m.length = l.length + 1)
    (a : α) : m = l ++ [m.getLastD a] := by
  obtain ⟨r, rfl⟩ := h
  obtain ⟨x, rfl⟩ : ∃ x, r = [x] := List.length_eq_one_iff.mp (by simpa using hlen)
  simp

theorem Ok.ask {answer : W → Bytes → Bytes} {c : C} {t : Ticket C W} (h : t.Ok answer c)
    (hp : t.place = none) (request : Bytes) :
    Ok answer c { t with place := some (.toRouter c), sent := t.sent ++ [request] } where
  served_sent := h.served_sent.trans (List.prefix_append _ _)
  taken_replies := h.taken_replies
  sent_length := by simpa [hp] using h.sent_length
  served_length := by simpa [hp, Stop.served] using h.served_length
  own := by simp
  worker := by simp

/-- The ticket goes on to a stop of the same kind. -/
theorem Ok.pass {answer : W → Bytes → Bytes} {c : C} {t : Ticket C W} (h : t.Ok answer c)
    {p r : Stop C W} (hp : t.place = some p) (hserved : r.served = p.served)
    (hown : ∀ c', r = .toRouter c' ∨ r = .toClient c' → c' = c) (hw : ∀ w, r ≠ .serving w) :
    Ok answer c { t with place := some r } where
  served_sent := h.served_sent
  taken_replies := h.taken_replies
  sent_length := by simpa [hp] using h.sent_length
  served_length := by simpa [hp, hserved] using h.served_length
  own := by simpa using hown
  worker := by simpa using fun w hr => (hw w hr).elim

theorem Ok.serve {answer : W → Bytes → Bytes} {c : C} {t : Ticket C W} (h : t.Ok answer c)
    {w : W} (hp : t.place = some (.toWorker w)) :
    Ok answer c { t with place := some (.serving w), served := t.served ++ [(w, t.request)] } where
  served_sent := by
    have hlen := h.sent_length
    have hserved := h.served_length
    simp only [hp, Option.isSome_some, if_true] at hlen
    simp only [hp, Option.any_some, Stop.served, Bool.false_eq_true, if_false] at hserved
    have hsnoc := eq_snoc_getLastD h.served_sent (by simp only [List.length_map]; omega) []
    rw [List.map_append]
    exact hsnoc ▸ List.prefix_rfl
  taken_replies := by
    rw [replies, List.map_append]
    exact h.taken_replies.trans (List.prefix_append _ _)
  sent_length := by simpa [hp] using h.sent_length
  served_length := by simpa [hp, Stop.served] using h.served_length
  own := by simp
  worker := by simp [reply, replies, request]

theorem Ok.finish {answer : W → Bytes → Bytes} {c : C} {t : Ticket C W} (h : t.Ok answer c)
    {c' : C} (hp : t.place = some (.toClient c')) :
    Ok answer c { t with place := none, taken := t.taken ++ [t.reply answer] } where
  served_sent := h.served_sent
  taken_replies := by
    have hserved := h.served_length
    simp only [hp, Option.any_some, Stop.served, if_true] at hserved
    have hsnoc := eq_snoc_getLastD h.taken_replies
      (by simpa only [replies, List.length_map] using hserved) []
    exact hsnoc ▸ List.prefix_rfl
  sent_length := by simpa [hp] using h.sent_length
  served_length := by simpa [hp, Stop.served] using h.served_length
  own := by simp
  worker := by simp

/-- A reply on its way to the client answers the request it waits for. -/
theorem Ok.replied {answer : W → Bytes → Bytes} {c : C} {t : Ticket C W} (h : t.Ok answer c)
    {c' : C} (hp : t.place = some (.toClient c')) : ∃ w request,
      t.served.getLast? = some (w, request) ∧ t.sent.getLast? = some request ∧
        t.reply answer = answer w request := by
  have hsent := h.sent_length
  have hserved := h.served_length
  simp only [hp, Option.isSome_some, if_true] at hsent
  simp only [hp, Option.any_some, Stop.served, if_true] at hserved
  have hall : t.served.map Prod.snd = t.sent :=
    h.served_sent.eq_of_length (by rw [List.length_map]; omega)
  rcases List.eq_nil_or_concat t.served with hnil | ⟨l, ⟨w, request⟩, hlast⟩
  · rw [hnil] at hserved
    simp at hserved
  · refine ⟨w, request, by simp [hlast], by simp [← hall, hlast], ?_⟩
    simp [reply, replies, hlast]

theorem Ok.kth {answer : W → Bytes → Bytes} {c : C} {t : Ticket C W} (h : t.Ok answer c)
    {k : ℕ} {r : Bytes} (hk : t.taken[k]? = some r) : ∃ w request,
      t.served[k]? = some (w, request) ∧ t.sent[k]? = some request ∧ r = answer w request := by
  have hreply : (t.replies answer)[k]? = some r := by
    obtain ⟨rest, hrest⟩ := h.taken_replies
    rw [← hrest, List.getElem?_append_left (List.getElem?_eq_some_iff.mp hk).1, hk]
  rw [replies, List.getElem?_map, Option.map_eq_some_iff] at hreply
  obtain ⟨⟨w, request⟩, hw, rfl⟩ := hreply
  refine ⟨w, request, hw, ?_, rfl⟩
  obtain ⟨rest, hrest⟩ := h.served_sent
  have hlt : k < (t.served.map Prod.snd).length := by
    rw [List.length_map]
    exact (List.getElem?_eq_some_iff.mp hw).1
  rw [← hrest, List.getElem?_append_left hlt, List.getElem?_map, hw]
  rfl

end Ticket

/-! ## The queues of the system -/

/-- What waits at a stop. The broker's stops hold the messages that
arrived on one socket and have not left by the other. -/
def contents (s : System C W) : Stop C W → List (List Bytes)
  | .toRouter c => s.toRouter c
  | .asking => (s.broker.arrived .frontend).drop s.dealt
  | .toWorker w => s.toWorker w
  | .serving w => (s.serving w).toList.map fun p => p.1 ++ [p.2]
  | .toDealer w => (s.toDealer w).map Subtype.val
  | .answering => (s.broker.arrived .backend).drop s.routed
  | .toClient c => s.toClient c

def message (net : Routing C) (answer : W → Bytes → Bytes) : Stop C W → C → Ticket C W → List Bytes
  | .toRouter _, _, t => reqSend t.request
  | .asking, c, t | .toWorker _, c, t | .serving _, c, t => [net.ident c, [], t.request]
  | .toDealer _, c, t | .answering, c, t => [net.ident c, [], t.reply answer]
  | .toClient _, _, t => reqSend (t.reply answer)

/-- The ticket of a client tells its part of the system's history. -/
structure Describes (net : Routing C) (answer : W → Bytes → Bytes) (s : System C W) (c : C)
    (t : Ticket C W) : Prop where
  ok : t.Ok answer c
  waiting : t.place.isSome = s.waiting c
  sent : t.sent = s.sent c
  served : t.served = handedTo net s c
  taken : t.taken = s.taken c

theorem describes_update [DecidableEq C] {net : Routing C} {answer : W → Bytes → Bytes}
    {t : System C W} {T : C → Ticket C W} {c : C} {ticket : Ticket C W}
    (ht : Describes net answer t c ticket)
    (hT : ∀ c', c' ≠ c → Describes net answer t c' (T c')) (c' : C) :
    Describes net answer t c' (Function.update T c ticket c') := by
  by_cases hc : c' = c
  · subst hc
    simpa using ht
  · simpa [Function.update_of_ne hc] using hT c' hc

structure Located [DecidableEq C] [DecidableEq W] (net : Routing C) (answer : W → Bytes → Bytes)
    (s : System C W) (T : C → Ticket C W) : Prop where
  carries : Carries Ticket.place (message net answer) T (contents s)
  describes : ∀ c, Describes net answer s c (T c)
  issued : ∀ h ∈ s.handed, ∃ c, h.envelope = [net.ident c, []]
  relayed : ∀ d, Relayed s.broker d
  dealt_le : s.dealt ≤ (s.broker.arrived .frontend).length
  routed_le : s.routed ≤ (s.broker.arrived .backend).length

section

variable [DecidableEq C] [DecidableEq W] {net : Routing C} {answer : W → Bytes → Bytes}
variable {s t : System C W} {T : C → Ticket C W}

theorem located_start : Located net answer (.start : System C W) fun _ => .start where
  carries := by
    intro p
    refine ⟨[], List.nodup_nil, by simp [Ticket.start], ?_⟩
    cases p <;> simp [contents, System.start, Loop.start]
  describes := fun c => ⟨Ticket.ok_start answer c, rfl, rfl, rfl, rfl⟩
  issued := by simp [System.start]
  relayed := relayed_start
  dealt_le := Nat.zero_le _
  routed_le := Nat.zero_le _

/-- The head of a queue is some client's ticket. If the system changes in
nothing but that this message goes to the end of another queue, as the
message of the ticket there, the tickets still describe it. -/
theorem Located.pass (hl : Located net answer s T) {p : Stop C W} {m : List Bytes}
    {rest : List (List Bytes)} (hq : contents s p = m :: rest) :
    ∃ c, (T c).place = some p ∧ m = message net answer p c (T c) ∧ ∀ r, r ≠ p →
      r.served = p.served → (∀ c', r = .toRouter c' ∨ r = .toClient c' → c' = c) →
      (∀ w, r ≠ .serving w) → ∀ t : System C W,
      contents t = Function.update (Function.update (contents s) p rest) r
        (contents s r ++ [message net answer r c { T c with place := some r }]) →
      (t.waiting = s.waiting ∧ t.sent = s.sent ∧ t.handed = s.handed ∧ t.taken = s.taken) →
      (∀ d, Relayed t.broker d) → t.dealt ≤ (t.broker.arrived .frontend).length →
      t.routed ≤ (t.broker.arrived .backend).length → ∃ T', Located net answer t T' := by
  obtain ⟨c, hc, hm, hmove⟩ := hl.carries.move hq
  refine ⟨c, hc, hm, ?_⟩
  intro r hr hserved hown hw t hcontents ⟨hwaiting, hsent, hhanded, htaken⟩ hrelayed hdealt hrouted
  let ticket : Ticket C W := { T c with place := some r }
  have hkeep (c' : C) (tk : Ticket C W) (hd : Describes net answer s c' tk) :
      Describes net answer t c' tk :=
    ⟨hd.ok, by rw [hwaiting]; exact hd.waiting, by rw [hsent]; exact hd.sent,
      by rw [handedTo, hhanded]; exact hd.served, by rw [htaken]; exact hd.taken⟩
  have hd := hl.describes c
  have hticket : Describes net answer s c ticket :=
    ⟨hd.ok.pass hc hserved hown hw, by simpa [ticket, hc] using hd.waiting, hd.sent, hd.served,
      hd.taken⟩
  exact ⟨Function.update T c ticket, hcontents ▸ hmove r ticket hr rfl,
    describes_update (hkeep c ticket hticket) fun c' _ => hkeep c' _ (hl.describes c'),
    hhanded ▸ hl.issued, hrelayed, hdealt, hrouted⟩

/-! ## The events -/

theorem located_send (hl : Located net answer s T) {c : C} {request : Bytes}
    (h : step net answer s (.send c request) = some t) : ∃ T', Located net answer t T' := by
  simp only [step, Option.ite_none_left_eq_some, Bool.not_eq_true, Option.some.injEq] at h
  obtain ⟨hidle, rfl⟩ := h
  have hd := hl.describes c
  have hp : (T c).place = none := by simpa [hidle] using hd.waiting
  let ticket : Ticket C W :=
    { T c with place := some (.toRouter c), sent := (T c).sent ++ [request] }
  refine ⟨Function.update T c ticket, ?_, ?_, hl.issued, hl.relayed, hl.dealt_le,
    hl.routed_le⟩
  · have hm : message net answer (.toRouter c) c ticket = reqSend request := by
      simp [message, ticket, Ticket.request]
    have hc := hl.carries.enter (t := ticket) hp rfl
    rw [hm] at hc
    convert hc using 1
    funext p
    cases p <;> simp [contents, Function.update_apply]
  · apply describes_update
    · exact ⟨hd.ok.ask hp request, by simp [ticket], by simp [ticket, hd.sent], hd.served, hd.taken⟩
    · intro c' hc
      have hd' := hl.describes c'
      exact ⟨hd'.ok, by simpa [Function.update_of_ne hc] using hd'.waiting,
        by simpa [Function.update_of_ne hc] using hd'.sent, hd'.served, hd'.taken⟩

theorem located_uplink (hl : Located net answer s T) {c : C}
    (h : step net answer s (.uplink c) = some t) : ∃ T', Located net answer t T' := by
  cases hq : s.toRouter c with
  | nil => simp [step, hq] at h
  | cons m rest =>
      simp only [step, hq, Option.some.injEq] at h
      subst t
      obtain ⟨c', hc', hm, hpass⟩ := hl.pass (p := .toRouter c) hq
      have hown : c = c' := (hl.describes c').ok.own c (Or.inl hc')
      subst c'
      refine hpass .asking (by simp) rfl (by simp) (by simp) _ ?_ ⟨rfl, rfl, rfl, rfl⟩
        (fun d => (hl.relayed d).arrive _ _) ?_ ?_
      · funext p
        cases p with
        | asking =>
            simp only [contents, Function.update_self, drop_arrived hl.dealt_le]
            simp [routerReceive, message, hm, reqSend, Ticket.request]
        | answering => simp [contents, Loop.arrive]
        | _ => simp [contents, Function.update_apply]
      · have hle := hl.dealt_le
        simp only [Loop.arrive, Function.update_self, List.length_append]
        omega
      · simpa [Loop.arrive] using hl.routed_le

theorem located_relay (hl : Located net answer s T)
    (h : step net answer s .relay = some t) : ∃ T', Located net answer t T' := by
  obtain ⟨b, hb, rfl⟩ := Option.map_eq_some_iff.mp h
  have harrived := arrived_of_call hb
  have hcontents : contents { s with broker := b } = contents s := by
    funext p
    cases p <;> simp [contents, harrived]
  refine ⟨T, hcontents ▸ hl.carries, ?_, hl.issued,
    fun d => relayed_step d (by simp) hb (hl.relayed d), ?_, ?_⟩
  · intro c
    have hd := hl.describes c
    exact ⟨hd.ok, hd.waiting, hd.sent, hd.served, hd.taken⟩
  · simpa [harrived] using hl.dealt_le
  · simpa [harrived] using hl.routed_le

/-- A message completed on one socket of the broker heads the messages
that arrived on the other and have not left. -/
theorem drop_of_completed {b : Loop} {d : Side} (hb : Relayed b d) {n : ℕ} {m : List Bytes}
    (hm : (messages (b.sent d.other))[n]? = some m) :
    (b.arrived d).drop n = m :: (b.arrived d).drop (n + 1) ∧ n + 1 ≤ (b.arrived d).length := by
  obtain ⟨rest, hrest⟩ := hb.messages_arrived hb.sent_mono
  obtain ⟨hn, hget⟩ := List.getElem?_eq_some_iff.mp hm
  have harrived : (b.arrived d)[n]? = some m := by
    rw [← hrest, List.getElem?_append_left hn, hm]
  obtain ⟨hlt, heq⟩ := List.getElem?_eq_some_iff.mp harrived
  exact ⟨by rw [List.drop_eq_getElem_cons hlt, heq], hlt⟩

theorem located_deal (hl : Located net answer s T) {w : W}
    (h : step net answer s (.deal w) = some t) : ∃ T', Located net answer t T' := by
  cases hm : (messages (s.broker.sent .backend))[s.dealt]? with
  | none => simp [step, hm] at h
  | some m =>
      simp only [step, hm, Option.some.injEq] at h
      subst t
      obtain ⟨hdrop, hlt⟩ := drop_of_completed (hl.relayed .frontend) hm
      obtain ⟨c, hc, hmc, hpass⟩ := hl.pass (p := .asking) hdrop
      refine hpass (.toWorker w) (by simp) rfl (by simp) (by simp) _ ?_ ⟨rfl, rfl, rfl, rfl⟩
        hl.relayed hlt hl.routed_le
      funext p
      cases p <;> simp [contents, Function.update_apply, message, hmc, Ticket.request]

theorem located_answer (hl : Located net answer s T) {w : W}
    (h : step net answer s (.answer w) = some t) : ∃ T', Located net answer t T' := by
  cases hq : s.serving w with
  | none => simp [step, hq] at h
  | some r =>
      obtain ⟨envelope, body⟩ := r
      simp only [step, hq, Option.some.injEq] at h
      subst t
      have hhead : contents s (.serving w) = [envelope ++ [body]] := by simp [contents, hq]
      obtain ⟨c, hc, hmc, hpass⟩ := hl.pass hhead
      have hparts : envelope = [net.ident c, []] ∧ body = (T c).request :=
        List.append_singleton_inj.mp hmc
      have hreply := (hl.describes c).ok.worker w hc
      refine hpass (.toDealer w) (by simp) rfl (by simp) (by simp) _ ?_ ⟨rfl, rfl, rfl, rfl⟩
        hl.relayed hl.dealt_le hl.routed_le
      have hmessage : message net answer (.toDealer w) c { T c with place := some (.toDealer w) } =
          envelope ++ [answer w body] := by
        rw [hparts.1, hparts.2, ← hreply]
        rfl
      funext p
      rw [hmessage]
      cases p with
      | serving w' => by_cases hw : w' = w <;> simp [contents, hw]
      | toDealer w' => by_cases hw : w' = w <;> simp [contents, hw, repSend]
      | _ => simp [contents]

theorem located_downlink (hl : Located net answer s T) {w : W}
    (h : step net answer s (.downlink w) = some t) : ∃ T', Located net answer t T' := by
  cases hq : s.toDealer w with
  | nil => simp [step, hq] at h
  | cons m rest =>
      simp only [step, hq, Option.some.injEq] at h
      subst t
      have hhead : contents s (.toDealer w) = m.val :: rest.map Subtype.val := by
        simp [contents, hq]
      obtain ⟨c, hc, hmc, hpass⟩ := hl.pass hhead
      refine hpass .answering (by simp) rfl (by simp) (by simp) _ ?_ ⟨rfl, rfl, rfl, rfl⟩
        (fun d => (hl.relayed d).arrive _ _) ?_ ?_
      · funext p
        cases p with
        | asking => simp [contents, Loop.arrive]
        | answering =>
            simp only [contents, Function.update_self, drop_arrived hl.routed_le, hmc]
            rfl
        | toDealer w' => by_cases hw : w' = w <;> simp [contents, hw]
        | _ => simp [contents]
      · simpa [Loop.arrive] using hl.dealt_le
      · have hle := hl.routed_le
        simp only [Loop.arrive, Function.update_self, List.length_append]
        omega

theorem located_route (hl : Located net answer s T)
    (h : step net answer s .route = some t) : ∃ T', Located net answer t T' := by
  cases hm : (messages (s.broker.sent .frontend))[s.routed]? with
  | none => simp [step, hm] at h
  | some m =>
      simp only [step, hm, Option.some.injEq] at h
      subst t
      obtain ⟨hdrop, hlt⟩ := drop_of_completed (hl.relayed .backend) hm
      obtain ⟨c, hc, hmc, hpass⟩ := hl.pass (p := .answering) hdrop
      have hsend : routerSend net s.toClient m =
          Function.update s.toClient c (s.toClient c ++ [reqSend ((T c).reply answer)]) := by
        rw [hmc]
        simp [routerSend, message, net.peer_ident, reqSend]
      refine hpass (.toClient c) (by simp) rfl (by simp) (by simp) _ ?_ ⟨rfl, rfl, rfl, rfl⟩
        hl.relayed hl.dealt_le hlt
      funext p
      cases p with
      | toClient c' =>
          by_cases hc' : c' = c <;>
            simp [hc', hsend, contents, message, Ticket.reply, Ticket.replies]
      | _ => simp [contents]

/-! ### The events that write history -/

theorem located_take (hl : Located net answer s T) {w : W}
    (h : step net answer s (.take w) = some t) : ∃ T', Located net answer t T' := by
  cases hidle : s.serving w with
  | some r => simp [step, hidle] at h
  | none =>
      cases hq : s.toWorker w with
      | nil => simp [step, hidle, hq] at h
      | cons m rest =>
          obtain ⟨c, hc, hm, hmove⟩ := hl.carries.move (p := .toWorker w) hq
          have hreceive : repReceive m = some ([net.ident c, []], [(T c).request]) := by
            rw [hm]
            exact repReceive_ident (net.ident_ne_nil c) _
          simp only [step, hidle, hq, hreceive, Option.some.injEq] at h
          subst t
          let ticket : Ticket C W :=
            { T c with place := some (.serving w), served := (T c).served ++ [(w, (T c).request)] }
          have hd := hl.describes c
          refine ⟨Function.update T c ticket, ?_, ?_, ?_, hl.relayed, hl.dealt_le, hl.routed_le⟩
          · convert hmove (.serving w) ticket (by simp) rfl using 1
            funext p
            cases p with
            | serving w' =>
                by_cases hw : w' = w <;>
                  simp [contents, hw, hidle, message, ticket, Ticket.request]
            | toWorker w' => by_cases hw : w' = w <;> simp [contents, hw]
            | _ => simp [contents]
          · apply describes_update
            · refine ⟨hd.ok.serve hc, by simpa [ticket, hc] using hd.waiting, hd.sent, ?_, hd.taken⟩
              simp [handedTo, ticket, hd.served]
            · intro c' hc'
              have hd' := hl.describes c'
              have hident : net.ident c ≠ net.ident c' := net.ident_injective.ne (Ne.symm hc')
              refine ⟨hd'.ok, hd'.waiting, hd'.sent, ?_, hd'.taken⟩
              simpa [handedTo, hident] using hd'.served
          · intro h hh
            rcases List.mem_append.mp hh with hold | hnew
            · exact hl.issued h hold
            · exact ⟨c, List.mem_singleton.mp hnew ▸ rfl⟩

theorem located_receive (hl : Located net answer s T) {c : C}
    (h : step net answer s (.receive c) = some t) : ∃ T', Located net answer t T' := by
  cases hwait : s.waiting c with
  | false => simp [step, hwait] at h
  | true =>
      cases hq : s.toClient c with
      | nil => simp [step, hwait, hq] at h
      | cons m rest =>
          obtain ⟨c', hc', hm, hleave⟩ := hl.carries.leave (p := .toClient c) hq
          have hown : c = c' := (hl.describes c').ok.own c (Or.inr hc')
          subst c'
          have hreceive : reqReceive m = some ((T c).reply answer) := by rw [hm]; rfl
          simp only [step, hwait, hq, hreceive, Option.map_some, Option.some.injEq] at h
          subst t
          let ticket : Ticket C W :=
            { T c with place := none, taken := (T c).taken ++ [(T c).reply answer] }
          have hd := hl.describes c
          refine ⟨Function.update T c ticket, ?_, ?_, hl.issued, hl.relayed, hl.dealt_le,
    hl.routed_le⟩
          · convert hleave ticket rfl using 1
            funext p
            cases p <;> simp [contents, Function.update_apply]
          · apply describes_update
            · exact ⟨hd.ok.finish hc', by simp [ticket], hd.sent, hd.served,
                by simp [ticket, hd.taken]⟩
            · intro c' hne
              have hd' := hl.describes c'
              exact ⟨hd'.ok, by simpa [Function.update_of_ne hne] using hd'.waiting, hd'.sent,
                hd'.served, by simpa [Function.update_of_ne hne] using hd'.taken⟩

theorem located_step (net : Routing C) (answer : W → Bytes → Bytes) :
    Preserves (step net answer) fun s => ∃ T, Located net answer s T := by
  intro s e t h ⟨T, hl⟩
  cases e with
  | send c request => exact located_send hl h
  | uplink c => exact located_uplink hl h
  | relay => exact located_relay hl h
  | deal w => exact located_deal hl h
  | take w => exact located_take hl h
  | answer w => exact located_answer hl h
  | downlink w => exact located_downlink hl h
  | route => exact located_route hl h
  | receive c => exact located_receive hl h

/-! ## Agreement -/

/-- What a client's history says: its requests are handed out in the order
sent, each to one worker and once; its replies answer them in that order;
what is on its way to it answers the request it waits for. -/
structure Agrees (net : Routing C) (answer : W → Bytes → Bytes) (s : System C W) (c : C) :
    Prop where
  handed_sent : (handedTo net s c).map Prod.snd <+: s.sent c
  taken_replies : s.taken c <+: (handedTo net s c).map fun h => answer h.1 h.2
  outstanding : (s.sent c).length = (s.taken c).length + if s.waiting c then 1 else 0
  replied : ∀ m ∈ s.toClient c, s.waiting c = true ∧ ∃ w request,
    (handedTo net s c).getLast? = some (w, request) ∧ (s.sent c).getLast? = some request ∧
      m = reqSend (answer w request)

theorem Located.agrees (hl : Located net answer s T) (c : C) : Agrees net answer s c := by
  have hd := hl.describes c
  refine ⟨hd.served ▸ hd.sent ▸ hd.ok.served_sent, ?_, ?_, ?_⟩
  · have h := hd.ok.taken_replies
    rwa [Ticket.replies, hd.served, hd.taken] at h
  · have h := hd.ok.sent_length
    rwa [hd.sent, hd.taken, hd.waiting] at h
  · intro m hm
    obtain ⟨is, -, hmem, heq⟩ := hl.carries (.toClient c)
    have hqueue : m ∈ contents s (.toClient c) := hm
    rw [heq] at hqueue
    obtain ⟨i, hi, hmi⟩ := List.mem_map.mp hqueue
    have hplace := (hmem i).mp hi
    have hown : c = i := (hl.describes i).ok.own c (Or.inr hplace)
    subst hown
    obtain ⟨w, request, hserved, hsent, hreply⟩ := hd.ok.replied hplace
    refine ⟨by simpa [hplace] using hd.waiting.symm, w, request, hd.served ▸ hserved,
      hd.sent ▸ hsent, ?_⟩
    rw [← hmi, ← hreply, message]

/-- In every reachable state each request handed to a worker is some
client's, every client agrees, and the `k`-th reply a client took is the
reply of the worker that was handed its `k`-th request to that request. -/
theorem agreement (net : Routing C) (answer : W → Bytes → Bytes) {es : List (Event C W)}
    {t : System C W} (hr : run (step net answer) .start es = some t) :
    (∀ h ∈ t.handed, ∃ c, h.envelope = [net.ident c, []]) ∧ (∀ c, Agrees net answer t c) ∧
      ∀ (c : C) (k : ℕ) (reply : Bytes), (t.taken c)[k]? = some reply → ∃ w request,
        (handedTo net t c)[k]? = some (w, request) ∧ (t.sent c)[k]? = some request ∧
          reply = answer w request := by
  obtain ⟨T, hl⟩ := (located_step net answer).run hr ⟨_, located_start⟩
  refine ⟨hl.issued, hl.agrees, ?_⟩
  intro c k reply hk
  have hd := hl.describes c
  rw [← hd.served, ← hd.sent]
  rw [← hd.taken] at hk
  exact hd.ok.kth hk

/-- One client's round trip through the broker while another waits. -/
def roundTrip : List (Event Bool Unit) :=
  [.send true [7], .send false [8], .uplink true] ++ List.replicate 18 .relay ++
    [.deal (), .take (), .answer (), .downlink ()] ++ List.replicate 18 .relay ++
      [.route, .receive true]

def pairRouting : Routing Bool where
  ident := fun c => if c then [1] else [2]
  peer := fun id => if id = [1] then some true else if id = [2] then some false else none
  ident_ne_nil := by decide
  peer_ident := by decide

theorem agreement_roundTrip : ∃ t : System Bool Unit,
    run (step pairRouting fun _ request => request ++ [0]) .start roundTrip = some t ∧
      t.taken true = [[7, 0]] ∧ t.sent false = [[8]] ∧
        ∀ c, Agrees pairRouting (fun _ request => request ++ [0]) t c := by
  refine ⟨_, rfl, rfl, rfl, ?_⟩
  have hr : run (step pairRouting fun _ request => request ++ [0]) .start roundTrip = some _ := rfl
  exact (agreement pairRouting (fun _ request => request ++ [0]) hr).2.1

end

end ZeromqAgent.RequestReply
