import ZeromqAgent.Session

/-!
# The storage of received messages

`receive` lets the message it returns point into the storage of a local
`zmq_msg_t` and closes that message before it returns. The caller never
gets to read what was received: the storage is released in the very state
in which `receive` hands it out.
-/

namespace ZeromqAgent

open Transition

/-- What the last `receive` returned can be read and is what was received. -/
def Session.Readable (s : Session) : Prop :=
  ∀ bytes, s.returned = some bytes → s.impl.message.bytes s.heap = some bytes

/-- The operation is a `receive` that returns a message: neither of its two
calls fails, it is not that of a publisher, which makes none, and the string
can be built. -/
def Session.delivers (role : Role) (s : Session) : Operate → Bool
  | .receive r =>
      r.init.isNone && r.bytes.any (fun bytes => Printable bytes) &&
        (role = .client || s.impl.type ≠ .publish)
  | _ => false

variable (strerror : Errno → String)

/-- A message that `receive` hands out lies in storage it has released. -/
theorem released_of_receive {role : Role} {c : Impl} {heap : Heap} {r : ReceiveCalls}
    (h : (message? (role.receive strerror c heap r).1).isSome) :
    (role.receive strerror c heap r).2.1.message.bytes
      (role.receive strerror c heap r).2.2 = none := by
  have hreceived := received strerror role c heap r
  generalize role.receive strerror c heap r = p at h hreceived
  cases hreceived with
  | returned data bytes htype hshort => exact Storage.read_release_self _ _ _
  | _ => cases h

theorem isSome_receive (role : Role) (s : Session) (r : ReceiveCalls) :
    (message? (role.receive strerror s.impl s.heap r).1).isSome =
      s.delivers role (.receive r) := by
  have h := received strerror role s.impl s.heap r
  generalize role.receive strerror s.impl s.heap r = p at h
  cases h with
  | publisher r hrole hpublish =>
      simp [message?, Session.delivers, hrole, hpublish, Except.toOption]
  | init e recv htype => simp [message?, Session.delivers, Except.toOption]
  | recv e htype => simp [message?, Session.delivers, ReceiveCalls.bytes, Except.toOption]
  | thrown data bytes htype hlong =>
      simp [message?, Session.delivers, ReceiveCalls.bytes, Except.toOption, hlong]
  | returned data bytes htype hshort =>
      have hrole : role = .client ∨ s.impl.type ≠ .publish := by
        cases role with
        | client => exact .inl rfl
        | server => exact .inr (htype rfl)
      simp [message?, Session.delivers, ReceiveCalls.bytes, Except.toOption, hshort, hrole]

theorem returned_step {role : Role} :
    PreservesUnder (Session.step strerror role) (fun s o => s.delivers role o = false)
      fun s => s.returned = none := by
  intro s o t ho h hs
  obtain ⟨-, hstep⟩ := session_step_cases strerror h
  cases hstep with
  | receive r hready hplaced =>
      rw [← isSome_receive strerror] at ho
      simp [ho]
  | destroy => rfl
  | _ => exact hs

theorem not_readable_of_delivers {role : Role} {s t : Session} {o : Operate}
    (ho : ¬ s.delivers role o = false) (h : s.step strerror role o = some t) : ¬ t.Readable := by
  obtain ⟨-, hstep⟩ := session_step_cases strerror h
  cases hstep with
  | receive r hready hplaced =>
      have hsome : (message? (role.receive strerror s.impl s.heap r).1).isSome = true := by
        rw [isSome_receive]
        simpa using ho
      obtain ⟨bytes, hb⟩ : ∃ bytes, r.bytes = some bytes := by
        simp only [Session.delivers, Bool.not_eq_false, Bool.and_eq_true] at ho
        obtain ⟨bytes, hb, -⟩ := (Option.any_eq_true _ _).mp ho.1.2
        exact ⟨bytes, hb⟩
      intro hread
      have hnone := released_of_receive strerror hsome
      have hgot := hread bytes (by simp [hsome, hb])
      rw [hnone] at hgot
      cases hgot
  | post _ p hpost hready =>
      rcases hpost with rfl | ⟨message, rfl⟩ <;> simp [Session.delivers] at ho
  | _ => simp [Session.delivers] at ho

/-- A received message can be read in every state of a session, until the
next `receive` or the destructor, exactly when no `receive` of the session
returns a message. -/
theorem received_readable_iff {role : Role} {type : SocketType} {junkSocket : Handle}
    {junkAllocated : Bool} {os : List Operate} {t : Session}
    (hr : run (Session.step strerror role) (.start type junkSocket junkAllocated) os = some t) :
    (∀ bs u, bs <+: os →
        run (Session.step strerror role) (.start type junkSocket junkAllocated) bs = some u →
          u.Readable) ↔
      Meets (Session.step strerror role) (fun s o => s.delivers role o = false)
        (.start type junkSocket junkAllocated) os := by
  refine forall_reached_iff_meets ?_ (returned_step strerror) ?_ hr rfl
  · intro s hs bytes hbytes
    rw [hs] at hbytes
    cases hbytes
  · exact fun s o u _ ho h => not_readable_of_delivers strerror ho h

def interruptedReceive : List Operate :=
  [.connect "url" ⟨none, none, none⟩, .receive ⟨none, .error .eintr⟩]

theorem received_readable_interrupted : ∃ t,
    run (Session.step (fun _ => "") .client) (.start .reply 0 false) interruptedReceive = some t ∧
      ∀ bs u, bs <+: interruptedReceive →
        run (Session.step (fun _ => "") .client) (.start .reply 0 false) bs = some u →
          u.Readable := by
  obtain ⟨t, ht⟩ : ∃ t, run (Session.step (fun _ => "") .client) (.start .reply 0 false)
      interruptedReceive = some t := ⟨_, rfl⟩
  refine ⟨t, ht, (received_readable_iff (fun _ => "") ht).mpr ?_⟩
  decide

/-- A worker receives the one byte 7: the message it gets has no storage. -/
theorem received_readable_fails : ¬ ∀ (strerror : Errno → String) (role : Role)
    (type : SocketType) (junkSocket : Handle) (junkAllocated : Bool) (os : List Operate)
    (t : Session),
    run (Session.step strerror role) (.start type junkSocket junkAllocated) os = some t →
      t.Readable := by
  intro h
  have hread := h (fun _ => "") .client .reply 0 false
    [.connect "url" ⟨none, none, none⟩, .receive ⟨none, .ok (5, [7])⟩] _ rfl [7] rfl
  revert hread
  decide

end ZeromqAgent
