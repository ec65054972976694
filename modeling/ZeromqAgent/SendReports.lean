import ZeromqAgent.ClientServer

/-!
# What a send reports

`ClientImpl::send_worker` and `ServerImpl::publish_worker` side by side:
the flags that reach libzmq, and the `Status` against the contract that
`server_api.h` gives. Only the client passes its flags on and reports the
bytes sent and the error text.
-/

namespace ZeromqAgent

variable (strerror : Errno → String)

/-- "return the bytes send, if failed return -1", with the error text of the
object in a failure. -/
def Contract (message : SendMessage) (failed : Bool) (status : Status) (strError : String) :
    Prop :=
  status = if failed then ⟨.notOk, -1, strError⟩ else ⟨.ok, message.size, ""⟩

/-- Each sends with the flags that it is given, unless it does not come to
the send, and they report the same, as the contract says. The server has no
call that initialises a message. -/
structure Alike (c d : Impl) (heap : Heap) (message : SendMessage) (flags : Flags)
    (r : SendCalls) : Prop where
  clientFlags : (ClientImpl.sendWorker strerror c message flags r).2.context.calls =
    c.context.calls ++ if r.init.isSome then [] else [.msgSend c.socket flags]
  serverFlags : (ServerImpl.publishWorker strerror d heap message flags r.send).2.context.calls =
    d.context.calls ++ [.send d.socket flags]
  client : Contract message (r.init.isSome || r.send.isSome)
    (ClientImpl.sendWorker strerror c message flags r).1
    (ClientImpl.sendWorker strerror c message flags r).2.strError
  server : Contract message r.send.isSome
    (ServerImpl.publishWorker strerror d heap message flags r.send).1
    (ServerImpl.publishWorker strerror d heap message flags r.send).2.strError
  equal : (ClientImpl.sendWorker strerror c message flags r).1 =
    (ServerImpl.publishWorker strerror d heap message flags r.send).1

/-! ## The client -/

theorem calls_sendWorker (c : Impl) (message : SendMessage) (flags : Flags) (r : SendCalls) :
    (ClientImpl.sendWorker strerror c message flags r).2.context.calls =
      c.context.calls ++ if r.init.isSome then [] else [.msgSend c.socket flags] := by
  obtain ⟨_ | e, _ | f⟩ := r
  · rfl
  · rfl
  · simp [ClientImpl.sendWorker, Impl.fail]
  · simp [ClientImpl.sendWorker, Impl.fail]

/-- The client breaks the contract only when `zmq_msg_init_data` fails: then
it reports 0 bytes. -/
theorem contract_sendWorker (c : Impl) {message : SendMessage} (flags : Flags) (r : SendCalls)
    (hsize : toInt (toSize message.size) = message.size) :
    Contract message (r.init.isSome || r.send.isSome)
        (ClientImpl.sendWorker strerror c message flags r).1
        (ClientImpl.sendWorker strerror c message flags r).2.strError ↔ r.init = none := by
  obtain ⟨_ | e, _ | f⟩ := r
  · simp [Contract, ClientImpl.sendWorker, Status.init, hsize]
  · simp [Contract, ClientImpl.sendWorker, Impl.fail]
  · simp [Contract, ClientImpl.sendWorker, Status.init]
  · simp [Contract, ClientImpl.sendWorker, Status.init]

/-! ## The server -/

/-- Whatever flags the server is given, it sends with none, so that its send
may block. -/
theorem calls_publishWorker (c : Impl) (heap : Heap) (message : SendMessage) (flags : Flags)
    (r : Option Errno) :
    (ServerImpl.publishWorker strerror c heap message flags r).2.context.calls =
      c.context.calls ++ [.send c.socket .none] := by
  cases r <;> rfl

/-- The server always reports 0 bytes, which the contract only allows for an
empty message that has been sent. -/
theorem contract_publishWorker (c : Impl) (heap : Heap) (message : SendMessage) (flags : Flags)
    (r : Option Errno) :
    Contract message r.isSome (ServerImpl.publishWorker strerror c heap message flags r).1
        (ServerImpl.publishWorker strerror c heap message flags r).2.strError ↔
      r = none ∧ message.size = 0 := by
  cases r with
  | none => simp [Contract, ServerImpl.publishWorker, Status.init, eq_comm]
  | some e => simp [Contract, ServerImpl.publishWorker, Status.init]

/-! ## Both -/

theorem send_reports (c d : Impl) (heap : Heap) (message : SendMessage) (flags : Flags)
    (r : SendCalls) :
    Alike strerror c d heap message flags r ↔
      flags = .none ∧ r.init = none ∧ r.send = none ∧ message.size = 0 := by
  constructor
  · intro h
    obtain ⟨hsend, hsize⟩ :=
      (contract_publishWorker strerror d heap message flags r.send).mp h.server
    have hsize' : toInt (toSize message.size) = message.size := by rw [hsize]; decide
    have hinit := (contract_sendWorker strerror c flags r hsize').mp h.client
    have hflags := h.serverFlags
    rw [calls_publishWorker, List.append_cancel_left_eq] at hflags
    refine ⟨?_, hinit, hsend, hsize⟩
    simpa [eq_comm] using hflags
  · rintro ⟨rfl, hinit, hsend, hsize⟩
    have hsize' : toInt (toSize message.size) = message.size := by rw [hsize]; decide
    refine ⟨calls_sendWorker strerror c message .none r, calls_publishWorker strerror d heap _ _ _,
      (contract_sendWorker strerror c .none r hsize').mpr hinit,
      (contract_publishWorker strerror d heap message .none r.send).mpr ⟨hsend, hsize⟩, ?_⟩
    obtain ⟨init, send⟩ := r
    dsimp only at hinit hsend
    subst hinit hsend
    simp [ClientImpl.sendWorker, ServerImpl.publishWorker, Status.init, hsize]
    decide

/-- A message of one byte that is sent. -/
theorem send_reports_fails : ¬ ∀ (strerror : Errno → String) (c d : Impl) (heap : Heap)
    (message : SendMessage) (flags : Flags) (r : SendCalls),
    Alike strerror c d heap message flags r := by
  intro h
  have hequal := (h (fun _ => "") (.start .request 1 false) (.start .reply 1 false)
    (fun _ => none) (.ofPtr 4 1) .none ⟨none, none⟩).equal
  exact absurd hequal (by decide)

end ZeromqAgent
