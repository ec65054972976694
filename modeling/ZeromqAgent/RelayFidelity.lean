import ZeromqAgent.BrokerLoop

/-!
# Fidelity of the relay

When no call fails, each direction of the broker loop copies the parts it
receives, one at a time and with their flags. The invariant has three
parts: the received parts and the queue make up the messages that
arrived; the received parts are the sent ones and the part in hand; and
the running inner loop holds exactly the open message.
-/

namespace ZeromqAgent.BrokerLoop

open Framing Transition

/-- What has been received on a side, and what waits there, are the
messages that arrived. -/
def Queued (s : Loop) (d : Side) : Prop :=
  (∀ m ∈ s.arrived d, m ≠ []) ∧ s.received d ++ s.inbound d = (s.arrived d).flatMap frame

theorem queued_start (d : Side) : Queued .start d := by simp [Queued, Loop.start]

theorem queued_step (d : Side) : Preserves step fun s => Queued s d := by
  intro s a t h hq
  cases step_cases h with
  | arrive e m =>
      obtain ⟨hne, hqueue⟩ := hq
      by_cases hd : d = e
      · subst hd
        refine ⟨?_, ?_⟩
        · intro x hx
          simp only [Loop.arrive, Function.update_self, List.mem_append, List.mem_singleton] at hx
          rcases hx with hx | rfl
          · exact hne x hx
          · exact m.property
        · simp only [Loop.arrive, Function.update_self, List.flatMap_append, List.flatMap_singleton]
          rw [← List.append_assoc, hqueue]
      · simpa [Queued, Loop.arrive, Function.update_of_ne hd] using ⟨hne, hqueue⟩
  | recv e p rest hpc hin =>
      by_cases hd : d = e
      · subst hd
        simpa [Queued, Loop.take, hin] using hq
      · simpa [Queued, Loop.take, Function.update_of_ne hd] using hq
  | close e more hpc => cases more <;> exact hq
  | _ => exact hq

/-- The part received on a side and not yet sent. -/
def Loop.held (s : Loop) (d : Side) : List Part :=
  match s.pc with
  | .more e => if e = d then [(s.message.data, s.message.more)] else []
  | .send e more => if e = d then [(s.message.data, more)] else []
  | _ => []

def Copied (s : Loop) (d : Side) : Prop := s.received d = s.sent d.other ++ s.held d

theorem copied_start (d : Side) : Copied .start d := by simp [Copied, Loop.start, Loop.held]

theorem Side.other_inj {d e : Side} : d.other = e.other ↔ d = e := by
  cases d <;> cases e <;> simp [Side.other]

theorem copied_step (d : Side) :
    PreservesUnder step (fun _ a => a ≠ .fail) fun s => Copied s d := by
  intro s a t hok h hc
  cases step_cases h with
  | arrive e m => exact hc
  | poll hpc _ => simpa [Copied, Loop.held, hpc] using hc
  | enter e hpc _ => simpa [Copied, Loop.held, hpc] using hc
  | skip e hpc _ => cases e <;> simpa [Copied, Loop.held, hpc, Pc.after] using hc
  | init e hpc => simpa [Copied, Loop.held, hpc] using hc
  | recv e p rest hpc hin =>
      have hsent : s.received d = s.sent d.other := by simpa [Copied, Loop.held, hpc] using hc
      by_cases hd : e = d
      · subst hd
        simp [Copied, Loop.held, Loop.take, hsent]
      · simpa [Copied, Loop.held, Loop.take, hd, Function.update_of_ne (Ne.symm hd)] using hsent
  | more e hpc =>
      by_cases hd : e = d <;> simpa [Copied, Loop.held, hpc, hd] using hc
  | send e more hpc =>
      by_cases hd : e = d
      · subst hd
        simpa [Copied, Loop.held, Loop.put, hpc] using hc
      · have hne : d.other ≠ e.other := fun he => hd (Side.other_inj.mp he).symm
        simpa [Copied, Loop.held, Loop.put, hpc, hd, Function.update_of_ne hne] using hc
  | close e more hpc =>
      have hsent : s.received d = s.sent d.other := by simpa [Copied, Loop.held, hpc] using hc
      cases more <;> cases e <;> simpa [Copied, Loop.held, Loop.endTurn, Pc.after] using hsent
  | recvFail e hpc => exact (hok rfl).elim
  | sendFail e more hpc => exact (hok rfl).elim

/-! ## The running inner loop and the open message -/

/-- Where the loop stands towards a side: outside its inner loop, before
the last part of the message, or holding or having sent the last part. -/
inductive Stage where
  | outside
  | inside
  | last

def Stage.ofFlag (more : Bool) : Stage := if more then .inside else .last

def Loop.stage (s : Loop) (d : Side) : Stage :=
  match s.pc with
  | .init e | .recv e => if e = d then .inside else .outside
  | .more e => if e = d then .ofFlag s.message.more else .outside
  | .send e more | .close e more => if e = d then .ofFlag more else .outside
  | _ => .outside

def Counted (s : Loop) (d : Side) : Prop :=
  match s.stage d with
  | .outside => pending (s.received d) = [] ∧ s.passes d = messages (s.received d)
  | .inside => s.turn = pending (s.received d) ∧ s.passes d = messages (s.received d)
  | .last => pending (s.received d) = [] ∧ s.passes d ++ [s.turn] = messages (s.received d)

theorem counted_start (d : Side) : Counted .start d := by simp [Counted, Loop.stage, Loop.start]

theorem counted_step (d : Side) :
    PreservesUnder step (fun _ a => a ≠ .fail) fun s => Counted s d := by
  intro s a t hok h hc
  cases step_cases h with
  | arrive e m => exact hc
  | poll hpc _ => simpa [Counted, Loop.stage, hpc] using hc
  | enter e hpc _ =>
      have hout : pending (s.received d) = [] ∧ s.passes d = messages (s.received d) := by
        simpa [Counted, Loop.stage, hpc] using hc
      by_cases hd : e = d <;> simp [Counted, Loop.stage, hd, hout]
  | skip e hpc _ => cases e <;> simpa [Counted, Loop.stage, hpc, Pc.after] using hc
  | init e hpc => simpa [Counted, Loop.stage, hpc] using hc
  | recv e p rest hpc hin =>
      by_cases hd : e = d
      · subst hd
        obtain ⟨data, more⟩ := p
        have hopen : s.turn = pending (s.received e) ∧ s.passes e = messages (s.received e) := by
          simpa [Counted, Loop.stage, hpc] using hc
        cases more <;> simp [Counted, Loop.stage, Loop.take, Stage.ofFlag, hopen.1, hopen.2]
      · simpa [Counted, Loop.stage, Loop.take, hpc, hd, Function.update_of_ne (Ne.symm hd)] using hc
  | more e hpc =>
      by_cases hd : e = d <;> simpa [Counted, Loop.stage, hpc, hd] using hc
  | send e more hpc =>
      by_cases hd : e = d <;> simpa [Counted, Loop.stage, Loop.put, hpc, hd] using hc
  | close e more hpc =>
      by_cases hd : e = d
      · subst hd
        cases more with
        | true => simpa [Counted, Loop.stage, Loop.endTurn, Stage.ofFlag, hpc] using hc
        | false =>
            have hlast : pending (s.received e) = [] ∧
                s.passes e ++ [s.turn] = messages (s.received e) := by
              simpa [Counted, Loop.stage, Stage.ofFlag, hpc] using hc
            cases e <;> simpa [Counted, Loop.stage, Loop.endTurn, Pc.after] using hlast
      · have hout : pending (s.received d) = [] ∧ s.passes d = messages (s.received d) := by
          simpa [Counted, Loop.stage, hpc, hd] using hc
        cases more with
        | true => simpa [Counted, Loop.stage, Loop.endTurn, hd] using hout
        | false =>
            have hpass : Function.update s.passes e (s.passes e ++ [s.turn]) d = s.passes d :=
              Function.update_of_ne (Ne.symm hd) _ _
            cases e <;> simpa [Counted, Loop.stage, Loop.endTurn, Pc.after, hpass] using hout
  | recvFail e hpc => exact (hok rfl).elim
  | sendFail e more hpc => exact (hok rfl).elim

structure Relayed (s : Loop) (d : Side) : Prop where
  queued : Queued s d
  copied : Copied s d
  counted : Counted s d

theorem relayed_start (d : Side) : Relayed .start d :=
  ⟨queued_start d, copied_start d, counted_start d⟩

theorem relayed_step (d : Side) :
    PreservesUnder step (fun _ a => a ≠ .fail) fun s => Relayed s d := by
  intro s a t hok h hs
  exact ⟨queued_step d h hs.queued, copied_step d hok h hs.copied, counted_step d hok h hs.counted⟩

theorem Relayed.arrive {s : Loop} {d : Side} (h : Relayed s d) (e : Side) (m : Multipart) :
    Relayed (s.arrive e m) d := relayed_step d (a := .arrive e m) (by simp) rfl h

theorem relayed_run {as : List Action} {t : Loop} (hok : Action.fail ∉ as)
    (hr : run step .start as = some t) (d : Side) : Relayed t d := by
  apply (relayed_step d).run ?_ hr (relayed_start d)
  apply meets_of_forall_mem
  intro a ha _ he
  exact hok (he ▸ ha)

theorem Relayed.sent_mono {s : Loop} {d : Side} (h : Relayed s d) :
    s.sent d.other <+: s.received d := ⟨_, h.copied.symm⟩

theorem Relayed.received_mono {s : Loop} {d : Side} (h : Relayed s d) :
    s.received d <+: (s.arrived d).flatMap frame := ⟨_, h.queued.2⟩

theorem held_length_le (s : Loop) (d : Side) : (s.held d).length ≤ 1 := by
  cases hpc : s.pc with
  | more e => by_cases hd : e = d <;> simp [Loop.held, hpc, hd]
  | send e more => by_cases hd : e = d <;> simp [Loop.held, hpc, hd]
  | _ => simp [Loop.held, hpc]

theorem Relayed.lag {s : Loop} {d : Side} (h : Relayed s d) :
    (s.received d).length ≤ (s.sent d.other).length + 1 := by
  have hlen := congrArg List.length h.copied
  have hheld := held_length_le s d
  simp only [List.length_append] at hlen
  omega

theorem Relayed.messages_arrived {s : Loop} {d : Side} (h : Relayed s d) {l : List Part}
    (hl : l <+: s.received d) : messages l <+: s.arrived d := by
  have hmono := messages_mono (hl.trans h.received_mono)
  rwa [(messages_flatMap_frame h.queued.1).1] at hmono

theorem Relayed.passes_mono {s : Loop} {d : Side} (h : Relayed s d) :
    s.passes d <+: messages (s.received d) := by
  have hc := h.counted
  unfold Counted at hc
  split at hc
  · exact hc.2 ▸ List.prefix_rfl
  · exact hc.2 ▸ List.prefix_rfl
  · exact ⟨_, hc.2⟩

theorem Relayed.at_poll {s : Loop} {d : Side} (h : Relayed s d) (hpc : s.pc = .poll) :
    s.sent d.other = s.received d ∧ pending (s.received d) = [] ∧
      s.passes d = messages (s.received d) := by
  have hcopied := h.copied
  have hcounted := h.counted
  simp only [Copied, Loop.held, hpc, List.append_nil] at hcopied
  simp only [Counted, Loop.stage, hpc] at hcounted
  exact ⟨hcopied.symm, hcounted⟩

/-- In every run of the loop whose calls succeed, each side is relayed
part by part. At every state the parts sent on one socket are a prefix of
those received on the other and at most one part behind, and they read
as a prefix of the messages that arrived; each completed inner loop has
received exactly one of these messages. At every poll nothing is behind
and both streams end at a message boundary. -/
theorem relay_fidelity {as : List Action} {t : Loop} (hok : Action.fail ∉ as)
    (hr : run step .start as = some t) (d : Side) :
    (t.sent d.other <+: t.received d ∧
      (t.received d).length ≤ (t.sent d.other).length + 1 ∧
      t.received d ++ t.inbound d = (t.arrived d).flatMap frame ∧
      messages (t.sent d.other) <+: t.arrived d ∧ t.passes d <+: t.arrived d) ∧
    (t.pc = .poll → t.sent d.other = t.received d ∧ pending (t.sent d.other) = [] ∧
      t.passes d = messages (t.sent d.other)) := by
  have h := relayed_run hok hr d
  refine ⟨⟨h.sent_mono, h.lag, h.queued.2, h.messages_arrived h.sent_mono,
    h.passes_mono.trans (h.messages_arrived List.prefix_rfl)⟩, ?_⟩
  intro hpc
  obtain ⟨hsent, hboundary, hpasses⟩ := h.at_poll hpc
  exact ⟨hsent, hsent ▸ hboundary, hsent ▸ hpasses⟩

/-- A message of two parts, the second one empty, relayed up to the next poll. -/
def twoPartRelay : List Action :=
  .arrive .frontend ⟨[[1], []], by simp⟩ :: List.replicate 13 .call

theorem relay_fidelity_two_parts : ∃ t, run step .start twoPartRelay = some t ∧
    t.received .frontend = [([1], true), ([], false)] ∧
    t.sent .backend = t.received .frontend ∧ t.passes .frontend = [[[1], []]] := by
  refine ⟨_, rfl, by decide, ?_, by decide⟩
  have hok : Action.fail ∉ twoPartRelay := by simp [twoPartRelay]
  exact ((relay_fidelity hok rfl .frontend).2 rfl).1

end ZeromqAgent.BrokerLoop
