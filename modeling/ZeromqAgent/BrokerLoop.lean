import ZeromqAgent.GeneralApi
import ZeromqAgent.Theory.Transition
import ZeromqAgent.Theory.Framing
import Mathlib.Logic.Function.Basic

/-!
# The relay loop of the broker

`BrokerImpl::start_loop` as a step machine. One step is one libzmq call
or test of the loop; between any two steps a multipart message may become
readable on either socket. The two inner loops of the source are the same
text with the sockets exchanged, so they are one definition indexed by
the side that is read. Console output is left out.
-/

namespace ZeromqAgent

abbrev Part := Bytes × Bool

/-- The parts of one multipart message; libzmq has no message without parts. -/
abbrev Multipart := { parts : List Bytes // parts ≠ [] }

namespace BrokerLoop

open Framing

inductive Side where
  | frontend
  | backend
  deriving DecidableEq

def Side.other : Side → Side
  | .frontend => .backend
  | .backend => .frontend

structure Message where
  data : Bytes
  more : Bool
  deriving DecidableEq

def Message.empty : Message := ⟨[], false⟩

/-- The next call or test: `poll` is `zmq_poll (items, 2, -1)`, `check` the
test of `revents`, the others the lines of the inner loop that reads the
side. `close` also stands for `if (!more) break`. -/
inductive Pc where
  | poll
  | check (d : Side)
  | init (d : Side)
  | recv (d : Side)
  | more (d : Side)
  | send (d : Side) (more : Bool)
  | close (d : Side) (more : Bool)
  deriving DecidableEq

def Pc.after : Side → Pc
  | .frontend => .check .backend
  | .backend => .poll

/-- The loop with the two sockets it serves. `recvOk` is the result of the
last `zmq_msg_recv`, which the loop discards. The fields from `arrived` on
are history that no step reads: the messages that became readable, the
parts received and sent on a side, the parts received by the running
inner loop and by each completed one. -/
structure Loop where
  pc : Pc
  message : Message
  revents : Side → Bool
  recvOk : Bool
  inbound : Side → List Part
  arrived : Side → List (List Bytes)
  received : Side → List Part
  sent : Side → List Part
  turn : List Bytes
  passes : Side → List (List Bytes)

def Loop.start : Loop where
  pc := .poll
  message := .empty
  revents := fun _ => false
  recvOk := false
  inbound := fun _ => []
  arrived := fun _ => []
  received := fun _ => []
  sent := fun _ => []
  turn := []
  passes := fun _ => []

inductive Action where
  | arrive (d : Side) (m : Multipart)
  | call
  | fail

def Loop.readable (s : Loop) (d : Side) : Bool := !(s.inbound d).isEmpty

def Loop.arrive (s : Loop) (d : Side) (m : Multipart) : Loop :=
  { s with
    inbound := Function.update s.inbound d (s.inbound d ++ frame m.val)
    arrived := Function.update s.arrived d (s.arrived d ++ [m.val]) }

theorem drop_arrived {s : Loop} {d : Side} {n : ℕ} (hn : n ≤ (s.arrived d).length)
    (m : Multipart) : ((s.arrive d m).arrived d).drop n = (s.arrived d).drop n ++ [m.val] := by
  simp [Loop.arrive, List.drop_append_of_le_length hn]

def Loop.take (s : Loop) (d : Side) (p : Part) (rest : List Part) : Loop :=
  { s with
    pc := .more d
    message := ⟨p.1, p.2⟩
    recvOk := true
    inbound := Function.update s.inbound d rest
    received := Function.update s.received d (s.received d ++ [p])
    turn := s.turn ++ [p.1] }

def Loop.put (s : Loop) (d : Side) (more : Bool) : Loop :=
  { s with
    pc := .close d more
    message := .empty
    sent := Function.update s.sent d.other (s.sent d.other ++ [(s.message.data, more)]) }

def Loop.endTurn (s : Loop) (d : Side) : Bool → Loop
  | true => { s with pc := .init d }
  | false =>
      { s with pc := .after d, passes := Function.update s.passes d (s.passes d ++ [s.turn]) }

/-- `arrive` queues a whole message, as libzmq delivers it. `call` performs
the next call of the loop and `fail` lets it return -1. A blocking call
that cannot proceed is not enabled, nor is a failure of a call other than
receive and send. -/
def step (s : Loop) : Action → Option Loop
  | .arrive d m => some (s.arrive d m)
  | .call =>
      match s.pc with
      | .poll =>
          if s.readable .frontend || s.readable .backend then
            some { s with pc := .check .frontend, revents := s.readable }
          else none
      | .check d =>
          if s.revents d then some { s with pc := .init d, turn := [] }
          else some { s with pc := .after d }
      | .init d => some { s with pc := .recv d, message := .empty }
      | .recv d =>
          match s.inbound d with
          | [] => none
          | p :: rest => some (s.take d p rest)
      | .more d => some { s with pc := .send d s.message.more }
      | .send d more => some (s.put d more)
      | .close d more => some (s.endTurn d more)
  | .fail =>
      match s.pc with
      -- the message stays as `zmq_msg_init` left it
      | .recv d => some { s with pc := .more d, recvOk := false }
      | .send d more => some { s with pc := .close d more }
      | _ => none

inductive Step (s : Loop) : Action → Loop → Prop
  | arrive (d : Side) (m : Multipart) : Step s (.arrive d m) (s.arrive d m)
  | poll (hpc : s.pc = .poll) (hready : ∃ d, s.readable d = true) :
      Step s .call { s with pc := .check .frontend, revents := s.readable }
  | enter (d : Side) (hpc : s.pc = .check d) (hrev : s.revents d = true) :
      Step s .call { s with pc := .init d, turn := [] }
  | skip (d : Side) (hpc : s.pc = .check d) (hrev : s.revents d = false) :
      Step s .call { s with pc := .after d }
  | init (d : Side) (hpc : s.pc = .init d) :
      Step s .call { s with pc := .recv d, message := .empty }
  | recv (d : Side) (p : Part) (rest : List Part) (hpc : s.pc = .recv d)
      (hin : s.inbound d = p :: rest) : Step s .call (s.take d p rest)
  | more (d : Side) (hpc : s.pc = .more d) :
      Step s .call { s with pc := .send d s.message.more }
  | send (d : Side) (more : Bool) (hpc : s.pc = .send d more) : Step s .call (s.put d more)
  | close (d : Side) (more : Bool) (hpc : s.pc = .close d more) :
      Step s .call (s.endTurn d more)
  | recvFail (d : Side) (hpc : s.pc = .recv d) :
      Step s .fail { s with pc := .more d, recvOk := false }
  | sendFail (d : Side) (more : Bool) (hpc : s.pc = .send d more) :
      Step s .fail { s with pc := .close d more }

theorem step_cases {s t : Loop} {a : Action} (h : step s a = some t) : Step s a t := by
  cases a with
  | arrive d m => exact Option.some.inj h ▸ .arrive d m
  | call =>
      cases hpc : s.pc with
      | poll =>
          simp only [step, hpc, Option.ite_none_right_eq_some, Bool.or_eq_true,
            Option.some.injEq] at h
          obtain ⟨hready, rfl⟩ := h
          exact .poll hpc (hready.elim (⟨_, ·⟩) (⟨_, ·⟩))
      | check d =>
          cases hrev : s.revents d with
          | true =>
              simp only [step, hpc, hrev, if_true, Option.some.injEq] at h
              exact h ▸ .enter d hpc hrev
          | false =>
              simp only [step, hpc, hrev, Bool.false_eq_true, if_false, Option.some.injEq] at h
              exact h ▸ .skip d hpc hrev
      | init d =>
          simp only [step, hpc, Option.some.injEq] at h
          exact h ▸ .init d hpc
      | recv d =>
          cases hin : s.inbound d with
          | nil => simp [step, hpc, hin] at h
          | cons p rest =>
              simp only [step, hpc, hin, Option.some.injEq] at h
              exact h ▸ .recv d p rest hpc hin
      | more d =>
          simp only [step, hpc, Option.some.injEq] at h
          exact h ▸ .more d hpc
      | send d more =>
          simp only [step, hpc, Option.some.injEq] at h
          exact h ▸ .send d more hpc
      | close d more =>
          simp only [step, hpc, Option.some.injEq] at h
          exact h ▸ .close d more hpc
  | fail =>
      cases hpc : s.pc with
      | recv d =>
          simp only [step, hpc, Option.some.injEq] at h
          exact h ▸ .recvFail d hpc
      | send d more =>
          simp only [step, hpc, Option.some.injEq] at h
          exact h ▸ .sendFail d more hpc
      | poll => simp [step, hpc] at h
      | check d => simp [step, hpc] at h
      | init d => simp [step, hpc] at h
      | more d => simp [step, hpc] at h
      | close d more => simp [step, hpc] at h

theorem arrived_of_call {s t : Loop} (h : step s .call = some t) : t.arrived = s.arrived := by
  cases step_cases h with
  | close d more hpc => cases more <;> rfl
  | _ => rfl

end BrokerLoop

end ZeromqAgent
