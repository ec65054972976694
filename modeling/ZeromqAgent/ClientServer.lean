import ZeromqAgent.Zmq

/-!
# Client and server

The synchronous operations of `ClientImpl` and `ServerImpl` and the bodies
of the handlers that their asynchronous operations post. The two classes
have the same members; those of the worker thread are left out, as are the
console output and the `assert`s of the operations not yet implemented. Of
the string that `receive` prints its length is left, since the string's
constructor can throw. `zmq_strerror` is a parameter.
-/

namespace ZeromqAgent

inductive Role where
  | client
  | server
  deriving DecidableEq

/-- The members the two classes share. `m_socket` has no value before the
first `connect` or `bind`. -/
structure Impl where
  context : Context
  socket : Handle
  type : SocketType
  message : SendMessage
  strError : String

structure ConnectCalls where
  socket : Option Errno
  connect : Option Errno
  setsockopt : Option Errno

structure BindCalls where
  socket : Option Errno
  bind : Option Errno

structure SendCalls where
  init : Option Errno
  send : Option Errno

/-- A received message is at an address that libzmq chooses. -/
structure ReceiveCalls where
  init : Option Errno
  recv : Except Errno (Addr × Bytes)

structure PollCalls where
  readable : Bool
  recv : Except Errno (Addr × Bytes)

/-- What leaves a function in place of its result. -/
inductive Exception where
  | lengthError
  deriving DecidableEq

/-- The length of `str_message`, built from a pointer and an `int`: as a
`size_t` a negative one is more than a string can have. -/
def strMessage (size : ℤ) : Except Exception ℕ :=
  if toSize size < 2 ^ 63 then .ok (toSize size) else .error .lengthError

/-- The string can be built from a message of so many bytes. -/
def Printable (bytes : Bytes) : Prop := bytes.length % 2 ^ 32 < 2 ^ 31

instance (bytes : Bytes) : Decidable (Printable bytes) := by
  unfold Printable
  infer_instance

theorem strMessage_toInt (n : ℕ) : strMessage (toInt n) =
    if n % 2 ^ 32 < 2 ^ 31 then .ok (n % 2 ^ 32) else .error .lengthError := by
  by_cases hn : n % 2 ^ 32 < 2 ^ 31
  · have hsize : toSize (toInt n) = n % 2 ^ 32 := by
      unfold toSize toInt
      rw [Int.bmod_def]
      split <;> omega
    rw [strMessage, hsize, if_pos (by omega), if_pos hn]
  · have hsize : ¬ toSize (toInt n) < 2 ^ 63 := by
      unfold toSize toInt
      rw [Int.bmod_def]
      split <;> omega
    rw [strMessage, if_neg hsize, if_neg hn]

variable (strerror : Errno → String)

namespace Impl

/-- The constructor, with the values that the members it leaves out happen
to have. -/
def start (type : SocketType) (junkSocket : Handle) (junkAllocated : Bool) : Impl where
  context := .new
  socket := junkSocket
  type := type
  message := .default junkAllocated
  strError := ""

def kind : SocketType → SocketKind
  | .publish => .pub
  | .subscribe => .sub
  | .request => .req
  | .reply => .rep

def fail (c : Impl) (e : Errno) : Impl := { c with strError := strerror e }

/-- The two statements `m_socket = create_socket(); if (!m_socket)`. -/
def createSocket (c : Impl) (r : Option Errno) : Option Errno × Impl :=
  match c.context.socket (kind c.type) r with
  | (.error e, ctx) => (some e, { c with context := ctx, socket := 0 })
  | (.ok h, ctx) => (none, { c with context := ctx, socket := h })

/-- The statements of `receive` up to `zmq_msg_data`, with the data that is
there then. -/
def take (c : Impl) (r : ReceiveCalls) : Option (Addr × Bytes) × Impl :=
  match r.init with
  | some e => (none, c.fail strerror e)
  | none =>
      let c := { c with context := c.context.call (.msgRecv c.socket .none) }
      match r.recv with
      | .error e => (none, c.fail strerror e)
      | .ok taken => (some taken, c)

def setMessage (c : Impl) (data : Addr) (size : ℤ) : Impl :=
  { c with message := (c.message.setData data).setSize size }

@[simp] theorem setMessage_size (c : Impl) (data : Addr) (size : ℤ) :
    (c.setMessage data size).message.size = size := rfl

def queue (c : Impl) : List Entry := c.context.outbound c.socket

/-- The handler of `async_receive` up to its callback, which gets the
message here; `zmq_msg_close` comes after the callback. -/
def receiveHandler (c : Impl) (r : PollCalls) : Option SendMessage × Impl :=
  let c := { c with context := c.context.call (.poll c.socket) }
  if r.readable then
    let c := { c with context := c.context.call (.msgRecv c.socket .dontwait) }
    match r.recv with
    | .error e => (none, if e = .eagain then c else c.fail strerror e)
    | .ok (a, bytes) => (some (.ofPtr a (toInt bytes.length)), c)
  else (none, c)

/-- The last part of the destructor, after the worker was joined. -/
def destroy (c : Impl) : Impl := { c with context := (c.context.close c.socket).destroy }

end Impl

namespace ClientImpl

open Impl

def connect (c : Impl) (url : String) (r : ConnectCalls) : ErrorType × Impl :=
  match c.createSocket r.socket with
  | (some e, c) => (.notOk, c.fail strerror e)
  | (none, c) =>
      match c.context.connect c.socket url r.connect with
      | (some e, ctx) => (.notOk, { c with context := ctx }.fail strerror e)
      | (none, ctx) =>
          let c := { c with context := ctx }
          if c.type = .subscribe then
            let c := { c with context := c.context.call (.setsockopt c.socket) }
            match r.setsockopt with
            | some e => (.notOk, c.fail strerror e)
            | none => (.ok, c)
          else (.ok, c)

def sendWorker (c : Impl) (message : SendMessage) (flags : Flags) (r : SendCalls) :
    Status × Impl :=
  match r.init with
  | some e =>
      ({ Status.init with error := .notOk, errorStr := strerror e }, c.fail strerror e)
  | none =>
      let c := { c with context := c.context.call (.msgSend c.socket flags) }
      match r.send with
      | some e => (⟨.notOk, -1, strerror e⟩, c.fail strerror e)
      | none =>
          let size := toSize message.size
          ({ Status.init with bytesSend := toInt size },
            { c with context := c.context.accept c.socket (.borrowed message.data size) })

def send (c : Impl) (message : SendMessage) (r : SendCalls) : Status × Impl :=
  sendWorker strerror c message .none r

/-- The rest of `receive`, with the data of the message and its size as an
`int`. The string comes first: when it throws, `m_message` is as before and
the storage of the received message is never released. -/
def deliver (c : Impl) (heap : Heap) (data : Addr) (size : ℤ) :
    Except Exception (Option SendMessage) × Impl × Heap :=
  match strMessage size with
  | .error e => (.error e, c, heap)
  | .ok _ =>
      let c := c.setMessage data size
      (.ok (some c.message), c, Storage.release heap data)

def receive (c : Impl) (heap : Heap) (r : ReceiveCalls) :
    Except Exception (Option SendMessage) × Impl × Heap :=
  match c.take strerror r with
  | (none, c) => (.ok none, c, heap)
  | (some (data, bytes), c) => deliver c (Storage.put heap data bytes) data (toInt bytes.length)

end ClientImpl

namespace ServerImpl

open Impl

def bind (c : Impl) (url : String) (r : BindCalls) : ErrorType × Impl :=
  match c.createSocket r.socket with
  | (some e, c) => (.notOk, c.fail strerror e)
  | (none, c) =>
      match c.context.bind c.socket url r.bind with
      | (some e, ctx) => (.notOk, { c with context := ctx }.fail strerror e)
      | (none, ctx) => (.ok, { c with context := ctx })

/-- The flags are not passed on. What `zmq_send` would copy from storage
that is not there is left empty. -/
def publishWorker (c : Impl) (heap : Heap) (message : SendMessage) (_flags : Flags)
    (r : Option Errno) : Status × Impl :=
  let c := { c with context := c.context.call (.send c.socket .none) }
  match r with
  | some e => ({ Status.init with error := .notOk }, c.fail strerror e)
  | none =>
      let bytes := (message.bytes heap).getD []
      (Status.init, { c with context := c.context.accept c.socket (.copied bytes) })

def publish (c : Impl) (heap : Heap) (message : SendMessage) (r : Option Errno) : Status × Impl :=
  publishWorker strerror c heap message .none r

/-- The string comes last, made from the members of `m_message` after
`zmq_msg_close` has released the storage. -/
def deliver (c : Impl) (heap : Heap) (data : Addr) (size : ℤ) :
    Except Exception (Option SendMessage) × Impl × Heap :=
  let c := c.setMessage data size
  let heap := Storage.release heap data
  match strMessage c.message.size with
  | .error e => (.error e, c, heap)
  | .ok _ => (.ok (some c.message), c, heap)

/-- There is nothing to receive on a publisher. -/
def receive (c : Impl) (heap : Heap) (r : ReceiveCalls) :
    Except Exception (Option SendMessage) × Impl × Heap :=
  if c.type = .publish then (.ok none, c, heap)
  else
    match c.take strerror r with
    | (none, c) => (.ok none, c, heap)
    | (some (data, bytes), c) => deliver c (Storage.put heap data bytes) data (toInt bytes.length)

end ServerImpl

def Role.deliver (role : Role) (c : Impl) (heap : Heap) (data : Addr) (size : ℤ) :
    Except Exception (Option SendMessage) × Impl × Heap :=
  match role with
  | .client => ClientImpl.deliver c heap data size
  | .server => ServerImpl.deliver c heap data size

def Role.receive (role : Role) (c : Impl) (heap : Heap) (r : ReceiveCalls) :
    Except Exception (Option SendMessage) × Impl × Heap :=
  match role with
  | .client => ClientImpl.receive strerror c heap r
  | .server => ServerImpl.receive strerror c heap r

/-- The message that `receive` returns, if it returns one. -/
def message? (x : Except Exception (Option SendMessage)) : Option SendMessage := x.toOption.join

/-! ## What a receive comes to -/

def Impl.receiving (c : Impl) : Impl :=
  { c with context := c.context.call (.msgRecv c.socket .none) }

/-- What an exception leaves: the client has not changed `m_message`, and the
server has released the storage. -/
def Role.thrown (role : Role) (c : Impl) (heap : Heap) (data : Addr) (size : ℤ) : Impl × Heap :=
  match role with
  | .client => (c, heap)
  | .server => (c.setMessage data size, Storage.release heap data)

inductive Received (role : Role) (c : Impl) (heap : Heap) :
    ReceiveCalls → Except Exception (Option SendMessage) × Impl × Heap → Prop
  | publisher (r : ReceiveCalls) (hrole : role = .server) (htype : c.type = .publish) :
      Received role c heap r (.ok none, c, heap)
  | init (e : Errno) (recv : Except Errno (Addr × Bytes))
      (htype : role = .server → c.type ≠ .publish) :
      Received role c heap ⟨some e, recv⟩ (.ok none, c.fail strerror e, heap)
  | recv (e : Errno) (htype : role = .server → c.type ≠ .publish) :
      Received role c heap ⟨none, .error e⟩ (.ok none, c.receiving.fail strerror e, heap)
  | thrown (data : Addr) (bytes : Bytes) (htype : role = .server → c.type ≠ .publish)
      (hlong : ¬ Printable bytes) :
      Received role c heap ⟨none, .ok (data, bytes)⟩ (.error .lengthError,
        role.thrown c.receiving (Storage.put heap data bytes) data (toInt bytes.length))
  | returned (data : Addr) (bytes : Bytes) (htype : role = .server → c.type ≠ .publish)
      (hshort : Printable bytes) :
      Received role c heap ⟨none, .ok (data, bytes)⟩
        (.ok (some (c.receiving.setMessage data (toInt bytes.length)).message),
          c.receiving.setMessage data (toInt bytes.length),
          Storage.release (Storage.put heap data bytes) data)

theorem Role.deliver_of_ok (role : Role) (c : Impl) (heap : Heap) (data : Addr) {size : ℤ} {n : ℕ}
    (h : strMessage size = .ok n) : role.deliver c heap data size =
      (.ok (some (c.setMessage data size).message), c.setMessage data size,
        Storage.release heap data) := by
  cases role with
  | client => simp only [Role.deliver, ClientImpl.deliver, h]
  | server => simp only [Role.deliver, ServerImpl.deliver, Impl.setMessage_size, h]

theorem Role.deliver_of_error (role : Role) (c : Impl) (heap : Heap) (data : Addr) {size : ℤ}
    {e : Exception} (h : strMessage size = .error e) : role.deliver c heap data size =
      (.error e, match role with
        | .client => (c, heap)
        | .server => (c.setMessage data size, Storage.release heap data)) := by
  cases role with
  | client => simp only [Role.deliver, ClientImpl.deliver, h]
  | server =>
      have hset : strMessage (c.setMessage data size).message.size = .error e := h
      simp only [Role.deliver, ServerImpl.deliver, hset]

theorem received_deliver (role : Role) (c : Impl) (heap : Heap) (data : Addr) (bytes : Bytes)
    (htype : role = .server → c.type ≠ .publish) :
    Received strerror role c heap ⟨none, .ok (data, bytes)⟩
      (role.deliver c.receiving (Storage.put heap data bytes) data (toInt bytes.length)) := by
  by_cases hshort : Printable bytes
  · have hlength := (strMessage_toInt bytes.length).trans (if_pos hshort)
    rw [role.deliver_of_ok c.receiving _ data hlength]
    exact .returned data bytes htype hshort
  · have hlength := (strMessage_toInt bytes.length).trans (if_neg hshort)
    rw [role.deliver_of_error c.receiving _ data hlength]
    exact .thrown data bytes htype hshort

theorem received (role : Role) (c : Impl) (heap : Heap) (r : ReceiveCalls) :
    Received strerror role c heap r (role.receive strerror c heap r) := by
  by_cases htype : role = .server → c.type ≠ .publish
  · have heq : role.receive strerror c heap r =
        match c.take strerror r with
        | (none, c) => (.ok none, c, heap)
        | (some (data, bytes), c) =>
            role.deliver c (Storage.put heap data bytes) data (toInt bytes.length) := by
      cases role with
      | client => rfl
      | server => exact if_neg (htype rfl)
    rw [heq]
    obtain ⟨_ | e, e' | ⟨data, bytes⟩⟩ := r
    · exact .recv e' htype
    · exact received_deliver strerror role c heap data bytes htype
    · exact .init e _ htype
    · exact .init e _ htype
  · obtain ⟨rfl, hpublish⟩ := Classical.not_imp.mp htype
    have hpublish : c.type = .publish := Classical.not_not.mp hpublish
    rw [Role.receive, ServerImpl.receive, if_pos hpublish]
    exact .publisher r rfl hpublish

/-- A receive changes neither the type nor the queue of the socket. -/
theorem receive_keeps (role : Role) (c : Impl) (heap : Heap) (r : ReceiveCalls) :
    (role.receive strerror c heap r).2.1.type = c.type ∧
      (role.receive strerror c heap r).2.1.queue = c.queue := by
  have h := received strerror role c heap r
  generalize role.receive strerror c heap r = p at h
  cases h with
  | thrown data bytes htype hlong => cases role <;> exact ⟨rfl, rfl⟩
  | _ => exact ⟨rfl, rfl⟩

/-! ## What a send leaves in the queue -/

theorem Impl.queue_accept (c : Impl) (entry : Entry) :
    Impl.queue { c with context := c.context.accept c.socket entry } = c.queue ++ [entry] := by
  simp [Impl.queue, Context.accept]

theorem sendWorker_queue (c : Impl) (message : SendMessage) (flags : Flags) (r : SendCalls) :
    (ClientImpl.sendWorker strerror c message flags r).2.queue =
      if (ClientImpl.sendWorker strerror c message flags r).1.error = .ok then
        c.queue ++ [.borrowed message.data (toSize message.size)]
      else c.queue := by
  obtain ⟨_ | e, _ | e⟩ := r
  · exact Impl.queue_accept { c with context := c.context.call (.msgSend c.socket flags) } _
  · rfl
  · rfl
  · rfl

theorem publishWorker_queue (c : Impl) (heap : Heap) (message : SendMessage) (flags : Flags)
    (r : Option Errno) : (ServerImpl.publishWorker strerror c heap message flags r).2.queue =
      if (ServerImpl.publishWorker strerror c heap message flags r).1.error = .ok then
        c.queue ++ [.copied ((message.bytes heap).getD [])]
      else c.queue := by
  cases r with
  | none => exact Impl.queue_accept { c with context := c.context.call (.send c.socket .none) } _
  | some e => rfl

end ZeromqAgent
