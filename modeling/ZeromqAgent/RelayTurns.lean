import ZeromqAgent.RelayFairness
import ZeromqAgent.Theory.Simulation

/-!
# The relay loop in turns

Between two polls the loop passes on one whole message of each side that
the poll found readable. Read that way it is a relay of whole messages,
and the two have the same traces. Which message comes next is in the state
of the loop; that it comes is because every call brings the loop nearer to
its next poll.
-/

namespace ZeromqAgent.BrokerLoop

open Framing Transition

/-! ## The next poll comes -/

/-- The calls up to the next receive or poll, when no part is left. -/
def Pc.rank (revents : Side → Bool) : Pc → ℕ
  | .recv _ => 3
  | .init _ => 4
  | .check .frontend => 6
  | .poll => 7
  | .check .backend => if revents .backend then 5 else 8
  | .close _ _ => 9
  | .send _ _ => 10
  | .more _ => 11

theorem Pc.rank_le (revents : Side → Bool) (pc : Pc) : pc.rank revents ≤ 11 := by
  cases pc with
  | check d =>
      cases d with
      | frontend => simp [Pc.rank]
      | backend => cases h : revents .backend <;> simp [Pc.rank, h]
  | _ => simp [Pc.rank]

def Loop.parts (s : Loop) : ℕ := (s.inbound .frontend).length + (s.inbound .backend).length

def Loop.work (s : Loop) : ℕ := 9 * s.parts + s.pc.rank s.revents

/-- After a poll some socket was found readable. -/
def Prompted (s : Loop) : Prop := s.pc = .check .frontend → ∃ d, s.revents d = true

theorem prompted_call {s t : Loop} (h : step s .call = some t) : Prompted t := by
  intro hpc
  cases step_cases h with
  | poll _ hready => exact hready
  | skip d _ _ => cases d <;> cases hpc
  | close d more _ => cases more <;> cases d <;> cases hpc
  | enter _ _ _ => cases hpc
  | init _ _ => cases hpc
  | recv _ _ _ _ _ => cases hpc
  | more _ _ => cases hpc
  | send _ _ _ => cases hpc

theorem parts_take {s : Loop} {d : Side} {p : Part} {rest : List Part}
    (hin : s.inbound d = p :: rest) : (s.take d p rest).parts + 1 = s.parts := by
  cases d <;> simp [Loop.parts, Loop.take, hin, Function.update_of_ne] <;> omega

theorem work_call {s t : Loop} (hp : Prompted s) (h : step s .call = some t) :
    t.work < s.work := by
  cases step_cases h with
  | poll hpc _ => simp [Loop.work, Loop.parts, Pc.rank, hpc]
  | enter d hpc hrev => cases d <;> simp [Loop.work, Loop.parts, Pc.rank, hpc, hrev]
  | skip d hpc hrev =>
      cases d with
      | frontend =>
          obtain ⟨e, he⟩ := hp hpc
          cases e with
          | frontend => rw [hrev] at he; cases he
          | backend => simp [Loop.work, Loop.parts, Pc.rank, Pc.after, hpc, he]
      | backend => simp [Loop.work, Loop.parts, Pc.rank, Pc.after, hpc, hrev]
  | init d hpc => simp [Loop.work, Loop.parts, Pc.rank, hpc]
  | recv d p rest hpc hin =>
      have hparts := parts_take hin
      have hrank : (s.take d p rest).pc.rank (s.take d p rest).revents = 11 := rfl
      rw [Loop.work, Loop.work, hpc, hrank, Pc.rank]
      omega
  | more d hpc => simp [Loop.work, Loop.parts, Pc.rank, hpc]
  | send d more hpc => simp [Loop.work, Loop.parts, Loop.put, Pc.rank, hpc]
  | close d more hpc =>
      cases more with
      | true => simp [Loop.work, Loop.parts, Loop.endTurn, Pc.rank, hpc]
      | false =>
          cases d with
          | frontend =>
              cases hrev : s.revents .backend <;>
                simp [Loop.work, Loop.parts, Loop.endTurn, Pc.after, Pc.rank, hpc, hrev]
          | backend => simp [Loop.work, Loop.parts, Loop.endTurn, Pc.after, Pc.rank, hpc]

theorem work_arrive (s : Loop) (d : Side) (m : Multipart) :
    (s.arrive d m).work = s.work + 9 * (frame m.val).length := by
  have hrank : (s.arrive d m).pc.rank (s.arrive d m).revents = s.pc.rank s.revents := rfl
  rw [Loop.work, Loop.work, hrank]
  cases d <;> simp [Loop.parts, Loop.arrive] <;> omega

/-- The loop only stops at a poll with nothing to read. -/
theorem exists_call {s : Loop} (hs : ∀ d, Supplied s d)
    (h : s.pc = .poll → ∃ d, s.inbound d ≠ []) : ∃ t, step s .call = some t := by
  cases hpc : s.pc with
  | poll =>
      obtain ⟨d, hd⟩ := h hpc
      have hready : (s.readable .frontend || s.readable .backend) = true := by
        cases d <;> simp [Loop.readable, hd]
      exact ⟨_, by rw [step, hpc]; exact if_pos hready⟩
  | check d => cases hrev : s.revents d <;> simp [step, hpc, hrev]
  | recv d =>
      obtain ⟨p, rest, hin⟩ := List.exists_cons_of_ne_nil ((hs d).at_recv hpc)
      simp [step, hpc, hin]
  | init d => simp [step, hpc]
  | more d => simp [step, hpc]
  | send d more => simp [step, hpc]
  | close d more => simp [step, hpc]

/-- What waits on a side belongs to messages not yet sent on. -/
theorem Relayed.inbound_le {s : Loop} {d : Side} (h : Relayed s d) {k : ℕ}
    (hk : k ≤ s.relayed d) :
    (s.inbound d).length ≤ (((s.arrived d).drop k).flatMap frame).length := by
  have hcount : k ≤ (messages (s.received d)).length :=
    Nat.le_trans hk (messages_mono h.sent_mono).length_le
  have hle := length_flatMap_take_le h.queued.1 h.received_mono hcount
  have hall := congrArg List.length h.queued.2
  rw [← List.take_append_drop k (s.arrived d), List.flatMap_append, List.length_append,
    List.length_append] at hall
  omega

/-- A message that has arrived and not been sent on keeps the loop going. -/
theorem exists_call_of_behind {s : Loop} (hs : Smooth s) {d : Side}
    (hd : s.relayed d < (s.arrived d).length) : ∃ t, step s .call = some t := by
  apply exists_call hs.supplied
  intro hpc
  have h := hs.relayed d
  obtain ⟨hsent, -, -⟩ := h.at_poll hpc
  refine ⟨d, ?_⟩
  intro hin
  have hall := h.queued.2
  rw [hin, List.append_nil] at hall
  rw [Loop.relayed, hsent, hall, (messages_flatMap_frame h.queued.1).1] at hd
  exact Nat.lt_irrefl _ hd

/-- A message about to be sent on has not been sent on. -/
theorem Relayed.lt_of_send {s : Loop} {d : Side} (h : Relayed s d) {more : Bool}
    (hpc : s.pc = .send d more) : s.relayed d < (s.arrived d).length := by
  have hall := h.queued.2
  rw [h.copied, List.append_assoc] at hall
  obtain ⟨hmessages, hpending⟩ := messages_flatMap_frame h.queued.1
  rw [← hall] at hmessages hpending
  have hheld : s.held d ++ s.inbound d ≠ [] := by simp [Loop.held, hpc]
  have hlt := length_messages_lt hheld hpending
  rwa [hmessages] at hlt

/-! ## The relay of whole messages -/

/-- `agenda` lists the sides whose message is still to be passed on before
the next poll. -/
structure Relay where
  queue : Side → List (List Bytes)
  agenda : List Side

inductive RelayAction where
  | arrive (d : Side) (m : Multipart)
  | poll
  | pass

inductive Sight where
  | arrived (d : Side) (m : List Bytes)
  | passed (d : Side) (m : List Bytes)

def readySides (ready : Side → Bool) : List Side := [.frontend, .backend].filter ready

def relay (s : Relay) : RelayAction → Option Relay
  | .arrive d m =>
      some { s with queue := Function.update s.queue d (s.queue d ++ [m.val]) }
  | .poll =>
      match s.agenda, readySides fun d => !(s.queue d).isEmpty with
      | [], d :: ds => some { s with agenda := d :: ds }
      | _, _ => none
  | .pass =>
      match s.agenda with
      | [] => none
      | d :: ds =>
          match s.queue d with
          | [] => none
          | _ :: rest => some ⟨Function.update s.queue d rest, ds⟩

def seeRelay (s : Relay) : RelayAction → List Sight
  | .arrive d m => [.arrived d m.val]
  | .poll => []
  | .pass => s.agenda.head?.toList.flatMap fun d => (s.queue d).head?.toList.map (.passed d)

def Relay.start : Relay := ⟨fun _ => [], []⟩

/-! ## The loop as a relay -/

/-- A step that does not fail. -/
def steady (s : Loop) : Action → Option Loop
  | .fail => none
  | .arrive d m => step s (.arrive d m)
  | .call => step s .call

/-- A message is passed on when its last part is sent. -/
def seeStep (s : Loop) : Action → List Sight
  | .arrive d m => [.arrived d m.val]
  | .call =>
      match s.pc with
      | .send d false => [.passed d (pending (s.sent d.other) ++ [s.message.data])]
      | _ => []
  | .fail => []

def Loop.backlog (s : Loop) (d : Side) : List (List Bytes) := (s.arrived d).drop (s.relayed d)

def Loop.agenda (s : Loop) : List Side :=
  let later := [Side.backend].filter s.revents
  match s.pc with
  | .poll => []
  | .check .frontend => readySides s.revents
  | .check .backend => later
  | .init .frontend | .recv .frontend | .more .frontend | .send .frontend _
  | .close .frontend true => .frontend :: later
  | .close .frontend false => later
  | .init .backend | .recv .backend | .more .backend | .send .backend _
  | .close .backend true => [.backend]
  | .close .backend false => []

def Loop.toRelay (s : Loop) : Relay := ⟨s.backlog, s.agenda⟩

theorem relayed_put_of_ne {s : Loop} {d e : Side} (h : d ≠ e) (more : Bool) :
    (s.put e more).relayed d = s.relayed d := by
  have hne : d.other ≠ e.other := fun he => h (Side.other_inj.mp he)
  simp [Loop.relayed, Loop.put, Function.update_of_ne hne]

/-- A message that is complete on the other side was the next of the backlog. -/
theorem backlog_put {s : Loop} {d : Side} (hs : Smooth s) (hpc : s.pc = .send d false) :
    ∃ rest, s.backlog d = (pending (s.sent d.other) ++ [s.message.data]) :: rest ∧
      (s.put d false).backlog = Function.update s.backlog d rest := by
  have hstep : step s .call = some (s.put d false) := by simp [step, hpc]
  have ht : Smooth (s.put d false) := smooth_step (a := .call) trivial hstep hs
  have hmessages : messages ((s.put d false).sent d.other) =
      messages (s.sent d.other) ++ [pending (s.sent d.other) ++ [s.message.data]] := by
    simp [Loop.put]
  obtain ⟨rest, hrest⟩ := (ht.relayed d).messages_arrived (ht.relayed d).sent_mono
  have harrived : s.arrived d = messages (s.sent d.other) ++
      (pending (s.sent d.other) ++ [s.message.data]) :: rest := by
    rw [hmessages, List.append_assoc] at hrest
    exact hrest.symm
  refine ⟨rest, by simp [Loop.backlog, Loop.relayed, harrived], ?_⟩
  funext e
  by_cases he : e = d
  · subst he
    rw [Function.update_self, Loop.backlog, Loop.relayed, hmessages, List.length_append,
      List.length_singleton]
    have hsame : (s.put e false).arrived e = s.arrived e := rfl
    rw [hsame, harrived, ← List.drop_drop]
    simp
  · rw [Function.update_of_ne he, Loop.backlog, relayed_put_of_ne he]
    rfl

/-- At a poll a side is readable exactly when it has a backlog. -/
theorem readable_eq {s : Loop} (hs : Smooth s) (hpc : s.pc = .poll) (d : Side) :
    s.readable d = !(s.backlog d).isEmpty := by
  cases hd : s.readable d with
  | true =>
      have hlt := relayed_lt hs hpc hd
      have hne : s.backlog d ≠ [] := by
        rw [Loop.backlog, Ne, List.drop_eq_nil_iff]
        omega
      simp [hne]
  | false =>
      have hin : s.inbound d = [] := by simpa [Loop.readable] using hd
      obtain ⟨hsent, -, -⟩ := (hs.relayed d).at_poll hpc
      have hall := (hs.relayed d).queued.2
      rw [hin, List.append_nil] at hall
      have hempty : s.backlog d = [] := by
        rw [Loop.backlog, Loop.relayed, hsent, hall,
          (messages_flatMap_frame (hs.relayed d).queued.1).1, List.drop_length]
      simp [hempty]

/-- What a call of the loop is to the relay. -/
inductive Answered (s t : Loop) : Prop
  | poll (hpc : s.pc = .poll) (hsee : seeStep s .call = [])
      (h : relay s.toRelay .poll = some t.toRelay)
  | unseen (hpc : s.pc ≠ .poll) (hsee : seeStep s .call = []) (h : t.toRelay = s.toRelay)
  | pass (d : Side) (hpc : s.pc = .send d false)
      (hsee : seeStep s .call = seeRelay s.toRelay .pass)
      (h : relay s.toRelay .pass = some t.toRelay)

theorem toRelay_congr {s t : Loop} (harrived : t.arrived = s.arrived)
    (hrelayed : t.relayed = s.relayed) (hagenda : t.agenda = s.agenda) :
    t.toRelay = s.toRelay := by
  have hbacklog : t.backlog = s.backlog := by
    funext d
    rw [Loop.backlog, Loop.backlog, harrived, hrelayed]
  rw [Loop.toRelay, Loop.toRelay, hbacklog, hagenda]

/-- A poll that returns found some side readable. -/
theorem readySides_ne_nil {ready : Side → Bool} (h : ∃ d, ready d = true) :
    readySides ready ≠ [] := by
  obtain ⟨d, hd⟩ := h
  have hmem : d ∈ readySides ready := by cases d <;> simp [readySides, hd]
  exact List.ne_nil_of_mem hmem

theorem answered_call {s t : Loop} (hs : Smooth s) (h : step s .call = some t) :
    Answered s t := by
  cases step_cases h with
  | poll hpc hready =>
      refine .poll hpc (by simp [seeStep, hpc]) ?_
      have hsides : readySides (fun d => !(s.backlog d).isEmpty) = readySides s.readable := by
        congr 1
        funext d
        rw [readable_eq hs hpc]
      obtain ⟨d, ds, hcons⟩ := List.exists_cons_of_ne_nil (readySides_ne_nil hready)
      have hagenda : s.agenda = [] := by simp [Loop.agenda, hpc]
      have hafter : ({ s with pc := .check .frontend, revents := s.readable } : Loop).agenda =
          d :: ds := hcons
      simp only [relay, Loop.toRelay, hagenda, hsides, hcons, hafter]
      rfl
  | enter d hpc hrev =>
      refine .unseen (by simp [hpc]) (by simp [seeStep, hpc]) (toRelay_congr rfl rfl ?_)
      cases d <;> simp [Loop.agenda, readySides, hpc, hrev]
  | skip d hpc hrev =>
      refine .unseen (by simp [hpc]) (by simp [seeStep, hpc]) (toRelay_congr rfl rfl ?_)
      cases d <;> simp [Loop.agenda, readySides, hpc, hrev, Pc.after]
  | init d hpc =>
      refine .unseen (by simp [hpc]) (by simp [seeStep, hpc]) (toRelay_congr rfl rfl ?_)
      cases d <;> simp [Loop.agenda, hpc]
  | recv d p rest hpc hin =>
      refine .unseen (by simp [hpc]) (by simp [seeStep, hpc]) (toRelay_congr rfl rfl ?_)
      cases d <;> simp only [Loop.agenda, hpc, Loop.take]
  | more d hpc =>
      refine .unseen (by simp [hpc]) (by simp [seeStep, hpc]) (toRelay_congr rfl rfl ?_)
      cases d <;> simp only [Loop.agenda, hpc]
  | send d more hpc =>
      cases more with
      | true =>
          refine .unseen (by simp [hpc]) (by simp [seeStep, hpc]) (toRelay_congr rfl ?_ ?_)
          · funext e
            by_cases he : e = d
            · subst he
              simp [Loop.relayed, Loop.put]
            · exact relayed_put_of_ne he true
          · cases d <;> simp only [Loop.agenda, hpc, Loop.put]
      | false =>
          obtain ⟨rest, hbacklog, hafter⟩ := backlog_put hs hpc
          have hagenda : s.agenda = d :: (s.put d false).agenda := by
            cases d <;> simp only [Loop.agenda, hpc, Loop.put]
          refine .pass d hpc ?_ ?_
          · simp [seeStep, hpc, seeRelay, Loop.toRelay, hagenda, hbacklog]
          · simp [relay, Loop.toRelay, hagenda, hbacklog, hafter]
  | close d more hpc =>
      refine .unseen (by simp [hpc]) (by simp [seeStep, hpc]) ?_
      cases more with
      | true =>
          refine toRelay_congr rfl rfl ?_
          cases d <;> simp only [Loop.agenda, hpc, Loop.endTurn]
      | false =>
          refine toRelay_congr rfl rfl ?_
          cases d <;> simp only [Loop.agenda, hpc, Loop.endTurn, Pc.after]

theorem toRelay_arrive {s : Loop} (hs : Smooth s) (d : Side) (m : Multipart) :
    relay s.toRelay (.arrive d m) = some (s.arrive d m).toRelay := by
  have hle : s.relayed d ≤ (s.arrived d).length :=
    ((hs.relayed d).messages_arrived (hs.relayed d).sent_mono).length_le
  have hbacklog : (s.arrive d m).backlog =
      Function.update s.backlog d (s.backlog d ++ [m.val]) := by
    funext e
    by_cases he : e = d
    · subst he
      rw [Function.update_self]
      exact drop_arrived hle m
    · simp [Loop.backlog, Loop.arrive, Loop.relayed, Function.update_of_ne he]
  rw [relay, Loop.toRelay, Loop.toRelay, hbacklog]
  rfl

theorem smooth_steady {s t : Loop} {a : Action} (hs : Smooth s) (h : steady s a = some t) :
    Smooth t := by
  cases a with
  | fail => simp [steady] at h
  | call => exact smooth_step (a := .call) trivial h hs
  | arrive d m => exact smooth_step (a := .arrive d m) trivial h hs

def asRelay : Simulation steady seeStep relay seeRelay where
  rel s p := Smooth s ∧ s.toRelay = p
  answers := by
    rintro s p a t ⟨hs, rfl⟩ h
    have ht := smooth_steady hs h
    cases a with
    | fail => simp [steady] at h
    | arrive d m =>
        obtain rfl := Option.some.inj h
        obtain ⟨hr, htrace⟩ := trace_singleton seeRelay (toRelay_arrive hs d m)
        exact ⟨_, _, hr, htrace, ht, rfl⟩
    | call =>
        cases answered_call hs h with
        | poll _ hsee hrelay =>
            obtain ⟨hr, htrace⟩ := trace_singleton seeRelay hrelay
            exact ⟨_, _, hr, by rw [htrace, hsee]; rfl, ht, rfl⟩
        | unseen _ hsee hrelay => exact ⟨[], _, rfl, by rw [hsee, trace_nil], ht, hrelay⟩
        | pass _ _ hsee hrelay =>
            obtain ⟨hr, htrace⟩ := trace_singleton seeRelay hrelay
            exact ⟨_, _, hr, by rw [htrace, hsee], ht, rfl⟩

/-! ## The loop keeps up with the relay -/

/-- A call that neither polls nor completes a message. -/
def Within (s : Loop) (a : Action) : Prop :=
  a = .call ∧ s.pc ≠ .poll ∧ ∀ d, s.pc ≠ .send d false

def Showing (p : Relay) (s : Loop) : Prop := Smooth s ∧ Prompted s ∧ s.toRelay = p

theorem seeStep_within {s : Loop} {a : Action} (h : Within s a) : seeStep s a = [] := by
  obtain ⟨rfl, -, hsend⟩ := h
  cases hpc : s.pc with
  | send d more =>
      cases more with
      | true => simp [seeStep, hpc]
      | false => exact (hsend d hpc).elim
  | _ => simp [seeStep, hpc]

theorem showing_within (p : Relay) : PreservesUnder steady Within (Showing p) := by
  rintro s a t ⟨rfl, hpoll, hsend⟩ h ⟨hs, -, hp⟩
  refine ⟨smooth_steady hs h, prompted_call h, ?_⟩
  cases answered_call hs h with
  | poll hpc _ _ => exact (hpoll hpc).elim
  | unseen _ _ hrelay => rw [hrelay, hp]
  | pass d hpc _ _ => exact (hsend d hpc).elim

theorem work_within (p : Relay) : Decreases steady Within (Showing p) Loop.work := by
  rintro s a t ⟨_, hprompted, _⟩ ⟨rfl, -, -⟩ h
  exact work_call hprompted h

/-- From any state the loop comes, unseen, to its next poll or to the last
part of the next message. -/
theorem exists_due {p : Relay} {s : Loop} (h : Showing p s) :
    ∃ as t, run steady s as = some t ∧ trace steady seeStep s as = [] ∧ Showing p t ∧
      (t.pc = .poll ∨ ∃ d, t.pc = .send d false) := by
  obtain ⟨as, t, hm, hr, hend⟩ := (work_within p).exists_exhausted (showing_within p) h
  have ht : Showing p t := (showing_within p).run hm hr h
  refine ⟨as, t, hr, trace_eq_nil_of_meets (fun _ _ => seeStep_within) hm, ht, ?_⟩
  by_contra hdue
  push Not at hdue
  obtain ⟨hpoll, hsend⟩ := hdue
  obtain ⟨u, hu⟩ := exists_call ht.1.supplied fun hpc => (hpoll hpc).elim
  have hstuck := hend .call ⟨rfl, hpoll, hsend⟩
  rw [steady, hu] at hstuck
  cases hstuck

theorem showing_arrive {p q : Relay} {s : Loop} {d : Side} {m : Multipart} (h : Showing p s)
    (hq : relay p (.arrive d m) = some q) : Showing q (s.arrive d m) := by
  obtain ⟨hs, hprompted, rfl⟩ := h
  have hstep : steady s (.arrive d m) = some (s.arrive d m) := rfl
  refine ⟨smooth_steady hs hstep, hprompted, ?_⟩
  rw [toRelay_arrive hs d m, Option.some.injEq] at hq
  exact hq

theorem exists_readable {s : Loop} {q : Relay} (hs : Smooth s) (hpc : s.pc = .poll)
    (hq : relay s.toRelay .poll = some q) : ∃ d, s.inbound d ≠ [] := by
  by_contra hnone
  push Not at hnone
  have hempty : readySides (fun d => !(s.backlog d).isEmpty) = [] := by
    apply List.filter_eq_nil_iff.mpr
    intro d _
    rw [← readable_eq hs hpc, Loop.readable, hnone d]
    simp
  have hagenda : s.agenda = [] := by simp [Loop.agenda, hpc]
  simp [relay, Loop.toRelay, hagenda, hempty] at hq

theorem Showing.poll {p q : Relay} {s : Loop} (h : Showing p s) (hq : relay p .poll = some q)
    (hdue : s.pc = .poll ∨ ∃ d, s.pc = .send d false) :
    ∃ t, steady s .call = some t ∧ seeStep s .call = [] ∧ Showing q t := by
  obtain ⟨hs, -, rfl⟩ := h
  have hpc : s.pc = .poll := by
    apply hdue.resolve_right
    rintro ⟨d, hd⟩
    have hagenda : s.agenda ≠ [] := by cases d <;> simp [Loop.agenda, hd]
    obtain ⟨e, es, hcons⟩ := List.exists_cons_of_ne_nil hagenda
    simp [relay, Loop.toRelay, hcons] at hq
  obtain ⟨t, ht⟩ := exists_call hs.supplied fun hpc => exists_readable hs hpc hq
  have hsmooth : Smooth t := smooth_steady (a := .call) hs ht
  cases answered_call hs ht with
  | poll _ hsee hrelay =>
      exact ⟨t, ht, hsee, hsmooth, prompted_call ht, Option.some.inj (hrelay.symm.trans hq)⟩
  | unseen hne _ _ => exact (hne hpc).elim
  | pass d hsend _ _ => simp [hpc] at hsend

theorem Showing.pass {p q : Relay} {s : Loop} (h : Showing p s) (hq : relay p .pass = some q)
    (hdue : s.pc = .poll ∨ ∃ d, s.pc = .send d false) :
    ∃ t, steady s .call = some t ∧ seeStep s .call = seeRelay p .pass ∧ Showing q t := by
  obtain ⟨hs, -, rfl⟩ := h
  obtain ⟨d, hpc⟩ : ∃ d, s.pc = .send d false := by
    apply hdue.resolve_left
    intro hpoll
    have hagenda : s.agenda = [] := by simp [Loop.agenda, hpoll]
    simp [relay, Loop.toRelay, hagenda] at hq
  have ht : step s .call = some (s.put d false) := by simp [step, hpc]
  have hsmooth : Smooth (s.put d false) := smooth_steady (a := .call) hs ht
  cases answered_call hs ht with
  | poll hpoll _ _ => simp [hpc] at hpoll
  | unseen _ hsee _ => simp [seeStep, hpc] at hsee
  | pass _ _ hsee hrelay =>
      exact ⟨_, ht, hsee, hsmooth, prompted_call ht, Option.some.inj (hrelay.symm.trans hq)⟩

/-- A call that comes after calls nobody sees. -/
theorem run_then_call {s t u : Loop} {as : List Action} (hr : run steady s as = some t)
    (htrace : trace steady seeStep s as = []) (h : steady t .call = some u) :
    run steady s (as ++ [.call]) = some u ∧
      trace steady seeStep s (as ++ [.call]) = seeStep t .call := by
  obtain ⟨hlast, hsee⟩ := trace_singleton seeStep h
  refine ⟨?_, by rw [trace_append hr, htrace, hsee, List.nil_append]⟩
  rw [run_append, hr, Option.bind_some]
  exact hlast

def ofRelay : Simulation relay seeRelay steady seeStep where
  rel := Showing
  answers := by
    intro p s b q h hq
    cases b with
    | arrive d m =>
        have hstep : steady s (.arrive d m) = some (s.arrive d m) := rfl
        obtain ⟨hr, htrace⟩ := trace_singleton seeStep hstep
        exact ⟨_, _, hr, htrace, showing_arrive h hq⟩
    | poll =>
        obtain ⟨as, t, hr, htrace, ht, hdue⟩ := exists_due h
        obtain ⟨u, hu, hsee, hshow⟩ := ht.poll hq hdue
        obtain ⟨hrun, hall⟩ := run_then_call hr htrace hu
        exact ⟨_, u, hrun, by rw [hall, hsee]; rfl, hshow⟩
    | pass =>
        obtain ⟨as, t, hr, htrace, ht, hdue⟩ := exists_due h
        obtain ⟨u, hu, hsee, hshow⟩ := ht.pass hq hdue
        obtain ⟨hrun, hall⟩ := run_then_call hr htrace hu
        exact ⟨_, u, hrun, by rw [hall, hsee], hshow⟩

theorem toRelay_start : Loop.start.toRelay = .start := by
  simp [Loop.toRelay, Loop.agenda, Loop.start, Relay.start, funext_iff, Loop.backlog]

/-- While no call fails, the loop shows exactly the traces of a relay that
at each poll notes the sides with a waiting message and then passes on the
oldest message of each, the front end first, before it looks again. -/
theorem traces_iff_turns (os : List Sight) :
    Traces steady seeStep .start os ↔ Traces relay seeRelay .start os := by
  constructor
  · exact asRelay.traces ⟨smooth_start, toRelay_start⟩
  · refine ofRelay.traces ⟨smooth_start, ?_, toRelay_start⟩
    intro hpc
    cases hpc

end ZeromqAgent.BrokerLoop
