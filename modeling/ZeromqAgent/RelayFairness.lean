import ZeromqAgent.RelayFidelity

/-!
# Turns of the relay loop

The loop asks once, in `zmq_poll`, which sides are readable, and then
receives without asking again. A side found readable keeps a whole message
until its turn, whatever arrives meanwhile, so that no receive waits; a
turn relays one message of each side that the poll found readable.
-/

namespace ZeromqAgent.BrokerLoop

open Framing Transition

/-- `zmq_msg_send` does not fail, and `zmq_msg_recv` is only interrupted
while no part is there. -/
def Reliable (s : Loop) : Action → Prop
  | .fail => ∃ d, s.pc = .recv d ∧ s.inbound d = []
  | _ => True

/-- Whether the loop has still to receive a part of a side before it polls again. -/
def Loop.expects (s : Loop) (d : Side) : Prop :=
  let later (e : Side) : Prop := e = .frontend ∧ d = .backend ∧ s.revents .backend = true
  match s.pc with
  | .poll => False
  | .check .frontend => s.revents d = true
  | .check .backend => d = .backend ∧ s.revents .backend = true
  | .init e | .recv e => d = e ∨ later e
  | .more e => d = e ∧ s.message.more = true ∨ later e
  | .send e more | .close e more => d = e ∧ more = true ∨ later e

def Supplied (s : Loop) (d : Side) : Prop := s.expects d → s.inbound d ≠ []

/-- Behind a part with its flag set the rest of the message is there. -/
theorem rest_of_more {s : Loop} {d : Side} {a : Bytes} {rest : List Part}
    (hq : Queued s d) (hin : s.inbound d = (a, true) :: rest) : rest ≠ [] := by
  rintro rfl
  have hall := hq.2
  rw [hin] at hall
  have hpending := (messages_flatMap_frame hq.1).2
  rw [← hall, pending_snoc_more] at hpending
  simp at hpending

theorem supplied_start (d : Side) : Supplied .start d := by
  simp [Supplied, Loop.expects, Loop.start]

theorem Supplied.mono {s t : Loop} {d : Side} (h : Supplied s d)
    (hexpects : t.expects d → s.expects d) (hin : t.inbound d = s.inbound d) : Supplied t d := by
  intro ht
  rw [hin]
  exact h (hexpects ht)

/-- A receive that is about to be executed finds a part. -/
theorem Supplied.at_recv {s : Loop} {d : Side} (h : Supplied s d) (hpc : s.pc = .recv d) :
    s.inbound d ≠ [] := by
  apply h
  simp [Loop.expects, hpc]

theorem supplied_call {s t : Loop} (hq : ∀ d, Queued s d) (hs : ∀ d, Supplied s d)
    (h : step s .call = some t) (d : Side) : Supplied t d := by
  cases step_cases h with
  | poll hpc hready =>
      intro hd
      simpa [Loop.expects, Loop.readable] using hd
  | enter e hpc hrev =>
      refine (hs d).mono ?_ rfl
      cases e <;> cases d <;> simp [Loop.expects, hpc, hrev]
  | skip e hpc hrev =>
      refine (hs d).mono ?_ rfl
      cases e <;> cases d <;> simp [Loop.expects, hpc, Pc.after]
  | init e hpc =>
      refine (hs d).mono ?_ rfl
      simp [Loop.expects, hpc]
  | recv e p rest hpc hin =>
      by_cases hd : d = e
      · subst hd
        obtain ⟨a, more⟩ := p
        intro hexpects
        have hmore : more = true := by
          cases d <;> simpa [Loop.expects, Loop.take] using hexpects
        subst hmore
        simpa [Loop.take] using rest_of_more (hq d) hin
      · apply (hs d).mono
        · simp [Loop.expects, Loop.take, hpc, hd]
        · simp [Loop.take, Function.update_of_ne hd]
  | more e hpc =>
      refine (hs d).mono ?_ rfl
      simp [Loop.expects, hpc]
  | send e more hpc =>
      refine (hs d).mono ?_ rfl
      simp [Loop.expects, Loop.put, hpc]
  | close e more hpc =>
      cases more with
      | true =>
          refine (hs d).mono ?_ rfl
          simp [Loop.expects, Loop.endTurn, hpc]
      | false =>
          refine (hs d).mono ?_ rfl
          cases e <;> simp [Loop.expects, Loop.endTurn, Pc.after, hpc]

theorem supplied_arrive {s : Loop} {d : Side} (hs : Supplied s d) (e : Side) (m : Multipart) :
    Supplied (s.arrive e m) d := by
  intro hd
  have hin := hs hd
  by_cases he : d = e
  · subst he
    simp [Loop.arrive, hin]
  · simpa [Loop.arrive, Function.update_of_ne he] using hin

/-- No receive waits, so that none is interrupted and every call succeeds. -/
structure Smooth (s : Loop) : Prop where
  relayed : ∀ d, Relayed s d
  supplied : ∀ d, Supplied s d

theorem smooth_start : Smooth .start := ⟨relayed_start, supplied_start⟩

theorem Smooth.not_fail {s : Loop} (h : Smooth s) {a : Action} (hr : Reliable s a) :
    a ≠ .fail := by
  rintro rfl
  obtain ⟨d, hpc, hin⟩ := hr
  exact (h.supplied d).at_recv hpc hin

theorem smooth_step : PreservesUnder step Reliable Smooth := by
  intro s a t hr h hs
  have hok := hs.not_fail hr
  refine ⟨fun d => relayed_step d hok h (hs.relayed d), ?_⟩
  cases a with
  | fail => exact (hok rfl).elim
  | call => exact supplied_call (fun d => (hs.relayed d).queued) hs.supplied h
  | arrive e m =>
      obtain rfl := Option.some.inj h
      exact fun d => supplied_arrive (hs.supplied d) e m

/-! ## What is relayed between two polls -/

/-- How many messages of a side have been sent on whole. -/
def Loop.relayed (s : Loop) (d : Side) : ℕ := (messages (s.sent d.other)).length

/-- The side whose inner loop is running. -/
def Pc.serving : Pc → Option Side
  | .init d | .recv d | .more d | .send d _ | .close d _ => some d
  | .poll | .check _ => none

/-- Whether the message of a side, if there was one, has been sent on since
the poll. -/
def Pc.past : Pc → Side → Bool
  | .poll, _ => true
  | .check .frontend, _ => false
  | .check .backend, d => d = .frontend
  | .init e, d | .recv e, d | .more e, d | .send e _, d | .close e true, d =>
      d = .frontend && e = .backend
  | .close e false, d => d = e || d = .frontend && e = .backend

/-- The loop is in `t` between the poll made in `s` and the next one. -/
structure Turn (s t : Loop) : Prop where
  revents : t.revents = s.readable
  serving : ∀ d, t.pc.serving = some d → s.readable d = true
  count : ∀ d, t.relayed d = s.relayed d + (t.pc.past d && s.readable d).toNat
  idle : ∀ d, s.readable d = false → t.sent d.other = s.sent d.other
  arrived : ∀ d, s.arrived d <+: t.arrived d

theorem turn_start {s t : Loop} (hpc : s.pc = .poll) (h : step s .call = some t) : Turn s t := by
  cases step_cases h with
  | poll _ _ =>
      refine ⟨rfl, by simp [Pc.serving], ?_, fun d _ => rfl, fun d => List.prefix_rfl⟩
      intro d
      simp [Loop.relayed, Pc.past]
  | enter e hpc' _ | skip e hpc' _ | init e hpc' | recv e _ _ hpc' _ | more e hpc'
  | send e _ hpc' | close e _ hpc' => simp [hpc] at hpc'

theorem turn_send {s t : Loop} {e : Side} {more : Bool} (hpc : t.pc = .send e more)
    (h : Turn s t) : Turn s (t.put e more) := by
  have hready := h.serving e (by simp [hpc, Pc.serving])
  refine ⟨h.revents, ?_, ?_, ?_, h.arrived⟩
  · intro d hd
    obtain rfl : e = d := by simpa [Loop.put, Pc.serving] using hd
    exact hready
  · intro d
    have hcount := h.count d
    simp only [hpc, Loop.relayed] at hcount
    by_cases hd : d = e
    · subst hd
      cases more with
      | true => cases d <;> simpa [Loop.relayed, Loop.put, Pc.past] using hcount
      | false => cases d <;> simpa [Loop.relayed, Loop.put, Pc.past, hready] using hcount
    · have hne : d.other ≠ e.other := fun he => hd (Side.other_inj.mp he)
      cases more with
      | true => simpa [Loop.relayed, Loop.put, Pc.past, Function.update_of_ne hne] using hcount
      | false => simpa [Loop.relayed, Loop.put, Pc.past, Function.update_of_ne hne, hd] using hcount
  · intro d hidle
    have hne : d.other ≠ e.other := by
      intro he
      rw [Side.other_inj.mp he, hready] at hidle
      cases hidle
    rw [← h.idle d hidle]
    exact Function.update_of_ne hne _ _

/-- A step without a poll stays in the turn. -/
theorem turn_step {s t u : Loop} {a : Action} (hs : Smooth t) (hr : Reliable t a)
    (hpoll : t.pc = .poll → a ≠ .call) (h : step t a = some u) (ht : Turn s t) : Turn s u := by
  have hok := hs.not_fail hr
  obtain ⟨hrevents, hserving, hcount, hidle, harrived⟩ := ht
  cases step_cases h with
  | arrive e m =>
      refine ⟨hrevents, hserving, hcount, hidle, ?_⟩
      intro d
      by_cases hd : d = e
      · subst hd
        simpa [Loop.arrive] using (harrived d).trans (List.prefix_append _ [m.val])
      · simpa [Loop.arrive, Function.update_of_ne hd] using harrived d
  | poll hpc _ => exact (hpoll hpc rfl).elim
  | enter e hpc hrev =>
      refine ⟨hrevents, ?_, ?_, hidle, harrived⟩
      · intro d hd
        obtain rfl : e = d := by simpa [Pc.serving] using hd
        rwa [hrevents] at hrev
      · intro d
        have hcount := hcount d
        cases e <;> cases d <;> simpa [Loop.relayed, hpc, Pc.past] using hcount
  | skip e hpc hrev =>
      rw [hrevents] at hrev
      refine ⟨hrevents, by cases e <;> simp [Pc.after, Pc.serving], ?_, hidle, harrived⟩
      intro d
      have hcount := hcount d
      cases e <;> cases d <;> simpa [Loop.relayed, hpc, Pc.past, Pc.after, hrev] using hcount
  | init e hpc | more e hpc | recv e p rest hpc hin =>
      simp only [hpc] at hserving hcount
      exact ⟨hrevents, hserving, hcount, hidle, harrived⟩
  | send e more hpc => exact turn_send hpc ⟨hrevents, hserving, hcount, hidle, harrived⟩
  | close e more hpc =>
      simp only [hpc] at hserving hcount
      cases more with
      | true => exact ⟨hrevents, hserving, hcount, hidle, harrived⟩
      | false =>
          refine ⟨hrevents, ?_, ?_, hidle, harrived⟩
          · cases e <;> simp [Loop.endTurn, Pc.after, Pc.serving]
          · intro d
            have hcount := hcount d
            cases e <;> cases d <;>
              simpa [Loop.relayed, Loop.endTurn, Pc.past, Pc.after] using hcount
  | recvFail e hpc | sendFail e more hpc => exact (hok rfl).elim

theorem relayed_mono {s t : Loop} {a : Action} (h : step s a = some t) (d : Side) :
    s.relayed d ≤ t.relayed d := by
  cases step_cases h with
  | send e more hpc =>
      by_cases hd : d = e
      · subst hd
        simpa [Loop.relayed, Loop.put] using
          (messages_snoc_mono (s.sent d.other) (s.message.data, more)).length_le
      · have hne : d.other ≠ e.other := fun he => hd (Side.other_inj.mp he)
        simp [Loop.relayed, Loop.put, Function.update_of_ne hne]
  | close e more hpc => cases more <;> exact Nat.le_refl _
  | _ => exact Nat.le_refl _

/-! ## Runs -/

/-- The loop does not poll. -/
def Unpolled (s : Loop) (a : Action) : Prop := s.pc = .poll → a ≠ .call

theorem turn_run {s t u : Loop} {as : List Action} (hpc : s.pc = .poll)
    (hpoll : step s .call = some t) (ht : Smooth t) (hr : Meets step Reliable t as)
    (hu : Meets step Unpolled t as) (h : run step t as = some u) : Smooth u ∧ Turn s u := by
  refine PreservesUnder.run (P := fun u => Smooth u ∧ Turn s u) ?_ (hr.and hu) h
    ⟨ht, turn_start hpc hpoll⟩
  intro v a w hv hstep hs
  exact ⟨smooth_step hv.1 hstep hs.1, turn_step hs.1 hv.1 hv.2 hstep hs.2⟩

/-- A side is readable at a poll exactly when a whole message waits there. -/
theorem relayed_lt {s : Loop} (hs : Smooth s) (hpc : s.pc = .poll) {d : Side}
    (hd : s.readable d = true) : s.relayed d < (s.arrived d).length := by
  have hrelayed := hs.relayed d
  obtain ⟨hsent, -, -⟩ := hrelayed.at_poll hpc
  have hin : s.inbound d ≠ [] := by simpa [Loop.readable] using hd
  obtain ⟨hmessages, hpending⟩ := messages_flatMap_frame hrelayed.queued.1
  rw [← hrelayed.queued.2] at hmessages hpending
  have hlt := length_messages_lt hin hpending
  rw [hmessages] at hlt
  rwa [Loop.relayed, hsent]

/-- At the next poll each side found readable has sent on the message that
was at its head. -/
theorem Turn.at_poll {s t : Loop} (h : Turn s t) (hs : Smooth s) (hspc : s.pc = .poll)
    (ht : Smooth t) (htpc : t.pc = .poll) {d : Side} (hd : s.readable d = true) :
    ∃ m, (s.arrived d)[s.relayed d]? = some m ∧
      messages (t.sent d.other) = messages (s.sent d.other) ++ [m] := by
  have hlt := relayed_lt hs hspc hd
  have hcount : t.relayed d = s.relayed d + 1 := by simpa [htpc, Pc.past, hd] using h.count d
  have hbefore : messages (s.sent d.other) <+: t.arrived d :=
    ((hs.relayed d).messages_arrived (hs.relayed d).sent_mono).trans (h.arrived d)
  have hafter : messages (t.sent d.other) <+: t.arrived d :=
    (ht.relayed d).messages_arrived (ht.relayed d).sent_mono
  have hget : (t.arrived d)[s.relayed d]? = some (s.arrived d)[s.relayed d] := by
    obtain ⟨rest, hrest⟩ := h.arrived d
    rw [← hrest, List.getElem?_append_left hlt]
    exact List.getElem?_eq_getElem hlt
  refine ⟨(s.arrived d)[s.relayed d], List.getElem?_eq_getElem hlt, ?_⟩
  calc messages (t.sent d.other)
      = (t.arrived d).take (t.relayed d) := List.prefix_iff_eq_take.mp hafter
    _ = (t.arrived d).take (s.relayed d) ++ [(s.arrived d)[s.relayed d]] := by
        rw [hcount, List.take_add_one, hget]
        rfl
    _ = messages (s.sent d.other) ++ [(s.arrived d)[s.relayed d]] := by
        congr 1
        exact (List.prefix_iff_eq_take.mp hbefore).symm

/-- As long as the message at the head of a side waits, the loop is in the
turn of the poll that found it. -/
theorem turn_while_waiting {s t u : Loop} {as : List Action} (hpc : s.pc = .poll)
    (hpoll : step s .call = some t) (ht : Smooth t) (hr : Meets step Reliable t as)
    (h : run step t as = some u) {d : Side} (hd : s.readable d = true)
    (hwait : u.relayed d = s.relayed d) : Turn s u := by
  have hinv : Smooth u ∧ (Turn s u ∨ s.relayed d < u.relayed d) := by
    refine PreservesUnder.run (P := fun u => Smooth u ∧ (Turn s u ∨ s.relayed d < u.relayed d))
      ?_ hr h ⟨ht, .inl (turn_start hpc hpoll)⟩
    rintro v a w hv hstep ⟨hs, hturn | hlt⟩
    · refine ⟨smooth_step hv hstep hs, ?_⟩
      by_cases hp : v.pc = .poll ∧ a = .call
      · -- at the next poll the message has been sent on
        have hcount : v.relayed d = s.relayed d + 1 := by
          simpa [hp.1, Pc.past, hd] using hturn.count d
        have hmono := relayed_mono hstep d
        exact .inr (by omega)
      · exact .inl (turn_step hs hv (fun hpv ha => hp ⟨hpv, ha⟩) hstep hturn)
    · exact ⟨smooth_step hv hstep hs, .inr (lt_of_lt_of_le hlt (relayed_mono hstep d))⟩
  rcases hinv.2 with hturn | hlt
  · exact hturn
  · omega

/-- In every run in which sends succeed and receives are interrupted only
while nothing is there, each receive that is reached finds a part. From one
poll to the next exactly one message is relayed of each side found
readable, the one at its head, and nothing of the other; as long as that
message waits, at most one message of the other side is relayed. -/
theorem relay_fairness {as : List Action} {s : Loop} (hr : Meets step Reliable .start as)
    (h : run step .start as = some s) :
    (∀ d, s.pc = .recv d → s.inbound d ≠ []) ∧
    ∀ t bs u, s.pc = .poll → step s .call = some t → Meets step Reliable t bs →
      run step t bs = some u →
      (Meets step Unpolled t bs → u.pc = .poll → ∀ d,
        pending (u.sent d.other) = [] ∧
        (s.readable d = true → ∃ m, (s.arrived d)[s.relayed d]? = some m ∧
          messages (u.sent d.other) = messages (s.sent d.other) ++ [m]) ∧
        (s.readable d = false → u.sent d.other = s.sent d.other)) ∧
      ∀ d, s.readable d = true → u.relayed d = s.relayed d →
        u.relayed d.other ≤ s.relayed d.other + 1 := by
  have hs := smooth_step.run hr h smooth_start
  refine ⟨fun d hpc => (hs.supplied d).at_recv hpc, ?_⟩
  intro t bs u hpc hpoll hrel hrun
  have ht : Smooth t := smooth_step (a := .call) trivial hpoll hs
  constructor
  · intro hun hupc d
    obtain ⟨hu, hturn⟩ := turn_run hpc hpoll ht hrel hun hrun
    obtain ⟨hsent, hpending, -⟩ := (hu.relayed d).at_poll hupc
    exact ⟨hsent ▸ hpending, hturn.at_poll hs hpc hu hupc, hturn.idle d⟩
  · intro d hd hwait
    have hcount := (turn_while_waiting hpc hpoll ht hrel hrun hd hwait).count d.other
    have hle := (u.pc.past d.other && s.readable d.other).toNat_le
    omega

instance decidableUnpolled : ∀ (s : Loop) (a : Action), Decidable (Unpolled s a)
  | s, .call => decidable_of_iff (s.pc ≠ .poll) (by simp [Unpolled])
  | _, .arrive _ _ => isTrue (by simp [Unpolled])
  | _, .fail => isTrue (by simp [Unpolled])

/-- A message on each side. -/
def bothReadable : List Action :=
  [.arrive .frontend ⟨[[1], [2]], List.cons_ne_nil _ _⟩,
    .arrive .backend ⟨[[3]], List.cons_ne_nil _ _⟩]

/-- The turn that follows, with a second message for the frontend in the meantime. -/
def oneTurn : List Action :=
  List.replicate 4 .call ++
    .arrive .frontend ⟨[[4]], List.cons_ne_nil _ _⟩ :: List.replicate 13 .call

theorem reliable_of_notMem {as : List Action} (h : Action.fail ∉ as) (s : Loop) :
    Meets step Reliable s as := by
  apply meets_of_forall_mem
  intro a ha s
  cases a with
  | fail => exact (h ha).elim
  | arrive d m => trivial
  | call => trivial

theorem relay_fairness_oneTurn : ∃ s t u, run step .start bothReadable = some s ∧
    step s .call = some t ∧ run step t oneTurn = some u ∧
    messages (u.sent .backend) = [[[1], [2]]] ∧ messages (u.sent .frontend) = [[[3]]] := by
  obtain ⟨s, t, u, hs, ht, hu, hpc, hupc, hun, hready, harrived, hsent⟩ : ∃ s t u,
      run step .start bothReadable = some s ∧ step s .call = some t ∧
      run step t oneTurn = some u ∧ s.pc = .poll ∧ u.pc = .poll ∧ Meets step Unpolled t oneTurn ∧
      (s.readable .frontend = true ∧ s.readable .backend = true) ∧
      (s.arrived .frontend = [[[1], [2]]] ∧ s.arrived .backend = [[[3]]]) ∧
      ∀ d, s.sent d = [] :=
    ⟨_, _, _, rfl, rfl, rfl, rfl, rfl, by decide, ⟨rfl, rfl⟩, ⟨rfl, rfl⟩, fun _ => rfl⟩
  have hr : Meets step Reliable .start bothReadable :=
    reliable_of_notMem (by simp [bothReadable]) .start
  have hturn := ((relay_fairness hr hs).2 t oneTurn u hpc ht
    (reliable_of_notMem (by simp [oneTurn]) t) hu).1 hun hupc
  obtain ⟨m, hm, hfront⟩ := (hturn .frontend).2.1 hready.1
  obtain ⟨n, hn, hback⟩ := (hturn .backend).2.1 hready.2
  have hm' : [[1], [2]] = m := by simpa [Loop.relayed, hsent, harrived.1] using hm
  have hn' : [[3]] = n := by simpa [Loop.relayed, hsent, harrived.2] using hn
  refine ⟨s, t, u, hs, ht, hu, ?_, ?_⟩
  · simpa [Side.other, hsent, hm'] using hfront
  · simpa [Side.other, hsent, hn'] using hback

end ZeromqAgent.BrokerLoop
