import ZeromqAgent.RelayFidelity

/-!
# The relay under failing calls

The loop discards the results of `zmq_msg_recv` and `zmq_msg_send`. A
receive that fails is followed by sending the empty message that
`zmq_msg_init` left, and a send that fails is followed by the sends of
the later parts. The outbound messages stay a subsequence of the inbound
ones in the runs where neither happens.
-/

namespace ZeromqAgent.BrokerLoop

open Framing Transition

/-- The part just received is not the first part of its message. -/
abbrev Loop.follows (s : Loop) (d : Side) : Prop := pending (s.received d).dropLast ≠ []

/-- No part is sent after a failed receive, and the sends of the parts of
one message all succeed or all fail. -/
def Clean (s : Loop) (a : Action) : Prop :=
  match s.pc, a with
  | .send d _, .call => s.recvOk = true ∧ (s.follows d → pending (s.sent d.other) ≠ [])
  | .send d _, .fail => s.recvOk = true → s.follows d → pending (s.sent d.other) = []
  | _, _ => True

instance (s : Loop) (a : Action) : Decidable (Clean s a) := by
  unfold Clean
  split <;> infer_instance

/-- The parts already sent thin out the parts received before the one in
hand, which a failed receive leaves absent. -/
def Whole (s : Loop) (d : Side) : Prop :=
  ∃ r, s.received d = r ++ (if s.recvOk then s.held d else []) ∧ Thins (s.sent d.other) r

theorem whole_start (d : Side) : Whole .start d :=
  ⟨[], by simp [Loop.start], Thins.nil⟩

theorem whole_of_held_nil {s : Loop} {d : Side} (h : s.held d = []) :
    Whole s d ↔ Thins (s.sent d.other) (s.received d) := by
  simp [Whole, h]

/-- A clean send keeps the part in hand. -/
theorem whole_send {s : Loop} {d : Side} {more : Bool} (hpc : s.pc = .send d more)
    (hclean : Clean s .call) (hw : Whole s d) : Whole (s.put d more) d := by
  obtain ⟨hok, hfollows⟩ : s.recvOk = true ∧
      (s.follows d → pending (s.sent d.other) ≠ []) := by simpa [Clean, hpc] using hclean
  obtain ⟨r, hr, hthin⟩ := hw
  have hreceived : s.received d = r ++ [(s.message.data, more)] := by
    simpa [Loop.held, hpc, hok] using hr
  have hlater : pending r ≠ [] → pending (s.sent d.other) ≠ [] := by
    simpa [hreceived] using hfollows
  have hput : Thins ((s.put d more).sent d.other) ((s.put d more).received d) := by
    simpa [Loop.put, hreceived] using hthin.keep (s.message.data, more) hlater
  exact (whole_of_held_nil rfl).mpr hput

/-- A clean send that fails drops the part in hand, if there is one. -/
theorem whole_sendFail {s : Loop} {d : Side} {more : Bool} (hpc : s.pc = .send d more)
    (hclean : Clean s .fail) (hw : Whole s d) : Whole { s with pc := .close d more } d := by
  obtain ⟨r, hr, hthin⟩ := hw
  cases hok : s.recvOk with
  | false =>
      have hreceived : s.received d = r := by simpa [hok] using hr
      exact (whole_of_held_nil rfl).mpr (hreceived ▸ hthin)
  | true =>
      have hreceived : s.received d = r ++ [(s.message.data, more)] := by
        simpa [Loop.held, hpc, hok] using hr
      have hlater : pending r ≠ [] → pending (s.sent d.other) = [] := by
        simpa [Clean, hpc, hok, hreceived] using hclean
      have hdrop := hthin.drop (s.message.data, more) hlater
      exact (whole_of_held_nil rfl).mpr (hreceived ▸ hdrop)

theorem whole_step (d : Side) : PreservesUnder step Clean fun s => Whole s d := by
  intro s a t hclean h hw
  cases step_cases h with
  | arrive e m => exact hw
  | poll hpc _ => simpa [Whole, Loop.held, hpc] using hw
  | enter e hpc _ => simpa [Whole, Loop.held, hpc] using hw
  | skip e hpc _ => cases e <;> simpa [Whole, Loop.held, hpc, Pc.after] using hw
  | init e hpc => simpa [Whole, Loop.held, hpc] using hw
  | recv e p rest hpc hin =>
      have hthin : Thins (s.sent d.other) (s.received d) := by
        simpa [Whole, Loop.held, hpc] using hw
      by_cases hd : e = d
      · subst hd
        exact ⟨s.received e, by simp [Loop.held, Loop.take], hthin⟩
      · apply (whole_of_held_nil (by simp [Loop.held, Loop.take, hd])).mpr
        simpa [Loop.take, Function.update_of_ne (Ne.symm hd)] using hthin
  | recvFail e hpc =>
      have hthin : Thins (s.sent d.other) (s.received d) := by
        simpa [Whole, Loop.held, hpc] using hw
      exact ⟨s.received d, by simp, hthin⟩
  | more e hpc => by_cases hd : e = d <;> simpa [Whole, Loop.held, hpc, hd] using hw
  | send e more hpc =>
      by_cases hd : e = d
      · subst hd
        exact whole_send hpc hclean hw
      · have hne : d.other ≠ e.other := fun he => hd (Side.other_inj.mp he).symm
        have hthin : Thins (s.sent d.other) (s.received d) := by
          simpa [Whole, Loop.held, hpc, hd] using hw
        apply (whole_of_held_nil rfl).mpr
        simpa [Loop.put, Function.update_of_ne hne] using hthin
  | sendFail e more hpc =>
      by_cases hd : e = d
      · subst hd
        exact whole_sendFail hpc hclean hw
      · simpa [Whole, Loop.held, hpc, hd] using hw
  | close e more hpc =>
      have hthin : Thins (s.sent d.other) (s.received d) := by
        simpa [Whole, Loop.held, hpc] using hw
      cases more <;> cases e <;> exact (whole_of_held_nil rfl).mpr hthin

/-- In every run whose sends are clean, the complete messages sent in
either direction are a subsequence of the complete messages received. -/
theorem relay_sublist {as : List Action} {t : Loop} (hm : Meets step Clean .start as)
    (hr : run step .start as = some t) (d : Side) :
    List.Sublist (messages (t.sent d.other)) (messages (t.received d)) := by
  obtain ⟨r, hreceived, hthin⟩ := (whole_step d).run hm hr (whole_start d)
  have hmono : messages r <+: messages (t.received d) := messages_mono ⟨_, hreceived.symm⟩
  exact hthin.1.trans hmono.sublist

/-- A two-part message whose second part is not received: the broker sends
the first part and closes the message with an empty one. -/
def interruptedRelay : List Action :=
  .arrive .frontend ⟨[[1], [2]], by simp⟩ :: List.replicate 8 .call ++
    .fail :: List.replicate 3 .call

theorem relay_sublist_fails : ¬ ∀ (as : List Action) (t : Loop), run step .start as = some t →
    ∀ d, List.Sublist (messages (t.sent d.other)) (messages (t.received d)) := by
  intro h
  have hsub := h interruptedRelay _ rfl .frontend
  revert hsub
  decide

/-- A message dropped whole: both of its sends fail. -/
def droppedRelay : List Action :=
  .arrive .frontend ⟨[[1], [2]], by simp⟩ :: List.replicate 5 .call ++
    .fail :: List.replicate 4 .call ++ .fail :: List.replicate 2 .call

theorem relay_sublist_dropped : ∃ t, run step .start droppedRelay = some t ∧
    t.pc = .poll ∧ messages (t.received .frontend) = [[[1], [2]]] ∧
    List.Sublist (messages (t.sent .backend)) (messages (t.received .frontend)) := by
  refine ⟨_, rfl, rfl, by decide, ?_⟩
  exact relay_sublist (show Meets step Clean .start droppedRelay by decide) rfl .frontend

end ZeromqAgent.BrokerLoop
