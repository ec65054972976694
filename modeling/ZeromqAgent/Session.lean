import ZeromqAgent.ClientServer
import ZeromqAgent.Theory.Transition

/-!
# Sessions

A session is any sequence of public operations on a client or a server,
from its constructor to its destructor, with the handlers that its worker
runs in between and with whatever the rest of the program does to its own
memory. Each operation carries the outcomes of the libzmq calls it makes.
-/

namespace ZeromqAgent

/-- A handler that was posted and has not run, with the argument it refers to. -/
inductive Handler where
  | send (message : SendMessage)
  | receive
  deriving DecidableEq

/-- `ready` tells that a `connect` or `bind` has returned `OK`, `returned`
the bytes that the last `receive` took from the socket if it returned a
message and the object is still there. -/
structure Session where
  impl : Impl
  heap : Heap
  ready : Bool
  posted : List Handler
  returned : Option Bytes
  finished : Bool

def Session.start (type : SocketType) (junkSocket : Handle) (junkAllocated : Bool) : Session where
  impl := .start type junkSocket junkAllocated
  heap := fun _ => none
  ready := false
  posted := []
  returned := none
  finished := false

/-- `work` runs the first posted handler. `memory` gives a free address a
block or takes back a block. -/
inductive Operate where
  | connect (url : String) (r : ConnectCalls)
  | bind (url : String) (r : BindCalls)
  | send (message : SendMessage) (r : SendCalls)
  | publish (message : SendMessage) (r : Option Errno)
  | receive (r : ReceiveCalls)
  | asyncSend (message : SendMessage)
  | asyncReceive
  | work (send : SendCalls) (receive : PollCalls)
  | memory (a : Addr) (block : Option Bytes)
  | destroy

variable (strerror : Errno → String)

def Handler.run (role : Role) (c : Impl) (heap : Heap) (send : SendCalls) (receive : PollCalls) :
    Handler → Impl
  | .receive => (c.receiveHandler strerror receive).2
  | .send message =>
      match role with
      | .client => (ClientImpl.sendWorker strerror c message .dontwait send).2
      | .server => (ServerImpl.publishWorker strerror c heap message .dontwait send.send).2

def ReceiveCalls.bytes (r : ReceiveCalls) : Option Bytes := r.recv.toOption.map Prod.snd

/-- libzmq puts the bytes at an address that is free. -/
def ReceiveCalls.placed (r : ReceiveCalls) (heap : Heap) : Bool :=
  match r.recv with
  | .error _ => true
  | .ok (a, _) => a ≠ 0 && (heap a).isNone

/-- The operations of a role on a live object. All but `connect`, `bind` and
the destructor come after one of the first two returned `OK`. -/
def Session.step (role : Role) (s : Session) (o : Operate) : Option Session :=
  if s.finished then none
  else
    match role, o with
    | .client, .connect url r =>
        let (error, c) := ClientImpl.connect strerror s.impl url r
        some { s with impl := c, ready := s.ready || error = .ok }
    | .server, .bind url r =>
        let (error, c) := ServerImpl.bind strerror s.impl url r
        some { s with impl := c, ready := s.ready || error = .ok }
    | .client, .send message r =>
        if s.ready then some { s with impl := (ClientImpl.send strerror s.impl message r).2 }
        else none
    | .server, .publish message r =>
        if s.ready then
          some { s with impl := (ServerImpl.publish strerror s.impl s.heap message r).2 }
        else none
    | _, .receive r =>
        if s.ready && r.placed s.heap then
          let (message, c, heap) := role.receive strerror s.impl s.heap r
          some { s with
            impl := c
            heap := heap
            returned := if (message? message).isSome then r.bytes else none }
        else none
    | _, .asyncSend message =>
        if s.ready then some { s with posted := s.posted ++ [.send message] } else none
    | _, .asyncReceive =>
        if s.ready then some { s with posted := s.posted ++ [.receive] } else none
    | _, .work send receive =>
        match s.posted with
        | [] => none
        | p :: rest =>
            some { s with impl := p.run strerror role s.impl s.heap send receive, posted := rest }
    | _, .memory a block =>
        if (s.heap a).isSome ≠ block.isSome then
          some { s with heap := Function.update s.heap a block }
        else none
    | _, .destroy =>
        some { s with impl := s.impl.destroy, returned := none, finished := true }
    | _, _ => none

/-! ## What a step does -/

inductive Session.Step (role : Role) (s : Session) : Operate → Session → Prop
  | connect (url : String) (r : ConnectCalls) (hrole : role = .client) :
      Step role s (.connect url r) { s with
        impl := (ClientImpl.connect strerror s.impl url r).2
        ready := s.ready || (ClientImpl.connect strerror s.impl url r).1 = .ok }
  | bind (url : String) (r : BindCalls) (hrole : role = .server) :
      Step role s (.bind url r) { s with
        impl := (ServerImpl.bind strerror s.impl url r).2
        ready := s.ready || (ServerImpl.bind strerror s.impl url r).1 = .ok }
  | send (message : SendMessage) (r : SendCalls) (hrole : role = .client)
      (hready : s.ready = true) :
      Step role s (.send message r)
        { s with impl := (ClientImpl.send strerror s.impl message r).2 }
  | publish (message : SendMessage) (r : Option Errno) (hrole : role = .server)
      (hready : s.ready = true) :
      Step role s (.publish message r)
        { s with impl := (ServerImpl.publish strerror s.impl s.heap message r).2 }
  | receive (r : ReceiveCalls) (hready : s.ready = true) (hplaced : r.placed s.heap = true) :
      Step role s (.receive r) { s with
        impl := (role.receive strerror s.impl s.heap r).2.1
        heap := (role.receive strerror s.impl s.heap r).2.2
        returned := if (message? (role.receive strerror s.impl s.heap r).1).isSome then r.bytes
          else none }
  | post (o : Operate) (p : Handler) (ho : o = .asyncReceive ∨ ∃ message, o = .asyncSend message)
      (hready : s.ready = true) : Step role s o { s with posted := s.posted ++ [p] }
  | work (send : SendCalls) (receive : PollCalls) (p : Handler) (rest : List Handler)
      (hposted : s.posted = p :: rest) :
      Step role s (.work send receive)
        { s with impl := p.run strerror role s.impl s.heap send receive, posted := rest }
  | memory (a : Addr) (block : Option Bytes) :
      Step role s (.memory a block) { s with heap := Function.update s.heap a block }
  | destroy : Step role s .destroy
      { s with impl := s.impl.destroy, returned := none, finished := true }

theorem session_step_cases {role : Role} {s t : Session} {o : Operate}
    (h : s.step strerror role o = some t) :
    s.finished = false ∧ Session.Step strerror role s o t := by
  unfold Session.step at h
  obtain ⟨hlive, h⟩ := Option.ite_none_left_eq_some.mp h
  refine ⟨by simpa using hlive, ?_⟩
  split at h
  · exact Option.some.inj h ▸ .connect _ _ rfl
  · exact Option.some.inj h ▸ .bind _ _ rfl
  · obtain ⟨hready, ht⟩ := Option.ite_none_right_eq_some.mp h
    exact Option.some.inj ht ▸ .send _ _ rfl hready
  · obtain ⟨hready, ht⟩ := Option.ite_none_right_eq_some.mp h
    exact Option.some.inj ht ▸ .publish _ _ rfl hready
  · obtain ⟨hready, ht⟩ := Option.ite_none_right_eq_some.mp h
    obtain ⟨hready, hplaced⟩ := Bool.and_eq_true_iff.mp hready
    exact Option.some.inj ht ▸ .receive _ hready hplaced
  · obtain ⟨hready, ht⟩ := Option.ite_none_right_eq_some.mp h
    exact Option.some.inj ht ▸ .post _ _ (Or.inr ⟨_, rfl⟩) hready
  · obtain ⟨hready, ht⟩ := Option.ite_none_right_eq_some.mp h
    exact Option.some.inj ht ▸ .post _ _ (Or.inl rfl) hready
  · cases hp : s.posted with
    | nil => simp [hp] at h
    | cons p rest =>
        simp only [hp] at h
        exact Option.some.inj h ▸ .work _ _ p rest hp
  · obtain ⟨-, ht⟩ := Option.ite_none_right_eq_some.mp h
    exact Option.some.inj ht ▸ .memory _ _
  · exact Option.some.inj h ▸ .destroy
  · cases h

end ZeromqAgent
