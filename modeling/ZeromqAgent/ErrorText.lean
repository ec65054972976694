import ZeromqAgent.BrokerApi
import ZeromqAgent.ClientServer
import ZeromqAgent.Theory.LastError

/-!
# The error text over whole runs

The four classes store the text of their last error for `get_str_error`.
Each operation is taken with the `errno` of the libzmq call that fails in
it, if one does, and with whether it reports a failure to its caller: by
`NOT_OK`, by a null message or by a `Status` with `NOT_OK`. Every failure is
reported, and the text is current, except that `ServerImpl::receive` on a
publisher returns a null message and leaves the text as it was.
-/

namespace ZeromqAgent

open Transition LastError

variable (strerror : Errno → String)

inductive ClientOp where
  | connect (url : String) (r : ConnectCalls)
  | send (message : SendMessage) (r : SendCalls)
  | receive (r : ReceiveCalls)

inductive ServerOp where
  | bind (url : String) (r : BindCalls)
  | publish (message : SendMessage) (r : Option Errno)
  | receive (r : ReceiveCalls)

def ReceiveCalls.errno (r : ReceiveCalls) : Option Errno :=
  r.init.or
    (match r.recv with
    | .error e => some e
    | .ok _ => none)

/-- A null message was returned: an exception reports nothing. -/
def isNull : Except Exception (Option SendMessage) → Bool
  | .ok none => true
  | _ => false

def ClientOp.exec (s : Impl × Heap) : ClientOp → Bool × Impl × Heap
  | .connect url r =>
      let (error, c) := ClientImpl.connect strerror s.1 url r
      (error = .notOk, c, s.2)
  | .send message r =>
      let (status, c) := ClientImpl.send strerror s.1 message r
      (status.error = .notOk, c, s.2)
  | .receive r =>
      let (message, c, heap) := ClientImpl.receive strerror s.1 s.2 r
      (isNull message, c, heap)

def ClientOp.errno (s : Impl × Heap) : ClientOp → Option Errno
  | .connect _ r =>
      r.socket.or (r.connect.or (if s.1.type = .subscribe then r.setsockopt else none))
  | .send _ r => r.init.or r.send
  | .receive r => r.errno

def ServerOp.exec (s : Impl × Heap) : ServerOp → Bool × Impl × Heap
  | .bind url r =>
      let (error, c) := ServerImpl.bind strerror s.1 url r
      (error = .notOk, c, s.2)
  | .publish message r =>
      let (status, c) := ServerImpl.publish strerror s.1 s.2 message r
      (status.error = .notOk, c, s.2)
  | .receive r =>
      let (message, c, heap) := ServerImpl.receive strerror s.1 s.2 r
      (isNull message, c, heap)

/-- A receive on a publisher makes no libzmq call. -/
def ServerOp.errno (s : Impl × Heap) : ServerOp → Option Errno
  | .bind url r =>
      match s.1.createSocket r.socket with
      | (some e, _) => some e
      | (none, c) => (c.context.bind c.socket url r.bind).1
  | .publish _ r => r
  | .receive r => if s.1.type = .publish then none else r.errno

def clientReporter : Reporter (Impl × Heap) ClientOp Errno String where
  exec := ClientOp.exec strerror
  code := ClientOp.errno
  text := fun s => s.1.strError

def serverReporter : Reporter (Impl × Heap) ServerOp Errno String where
  exec := ServerOp.exec strerror
  code := ServerOp.errno
  text := fun s => s.1.strError

def brokerReporter (k : BrokerClass) : Reporter Broker BindArgs Errno String where
  exec := fun b c => ((k.bind strerror b c).1 = .notOk, (k.bind strerror b c).2)
  code := fun b c => (k.setUp b.context c).1
  text := fun b => b.strError

/-! ## The single operations -/

/-- What an operation reports and stores, by the `errno` of the call that
fails in it. -/
def Reports (errno : Option Errno) (reported : Bool) (before after : String) : Prop :=
  match errno with
  | none => reported = false ∧ after = before
  | some e => reported = true ∧ after = strerror e

theorem reports_receive (role : Role) (c : Impl) (heap : Heap) (r : ReceiveCalls)
    (htype : role = .server → c.type ≠ .publish) :
    Reports strerror r.errno (isNull (role.receive strerror c heap r).1) c.strError
      (role.receive strerror c heap r).2.1.strError := by
  have h := received strerror role c heap r
  generalize role.receive strerror c heap r = p at h
  cases h with
  | publisher r hrole hpublish => exact (htype hrole hpublish).elim
  | thrown data bytes htype hlong => cases role <;> exact ⟨rfl, rfl⟩
  | _ => exact ⟨rfl, rfl⟩

theorem reports_clientOp (s : Impl × Heap) (o : ClientOp) :
    Reports strerror (o.errno s) (o.exec strerror s).1 s.1.strError
      (o.exec strerror s).2.1.strError := by
  cases o with
  | connect url r =>
      obtain ⟨_ | e, _ | f, _ | g⟩ := r
      all_goals by_cases hsub : s.1.type = .subscribe
      all_goals simp [Reports, ClientOp.errno, ClientOp.exec, ClientImpl.connect,
        Impl.createSocket, Context.socket, Context.connect, Impl.fail, hsub]
  | send message r =>
      obtain ⟨_ | e, _ | f⟩ := r <;> exact ⟨rfl, rfl⟩
  | receive r => exact reports_receive strerror .client s.1 s.2 r (by simp)

theorem createSocket_keeps {c c' : Impl} {r x : Option Errno} (h : c.createSocket r = (x, c')) :
    c'.strError = c.strError ∧ c'.type = c.type := by
  cases r with
  | none => exact (Prod.mk.inj h).2 ▸ ⟨rfl, rfl⟩
  | some e => exact (Prod.mk.inj h).2 ▸ ⟨rfl, rfl⟩

/-- The operation that reports a failure and stores nothing. -/
def ServerOp.unstored (s : Impl × Heap) : ServerOp → Prop
  | .receive _ => s.1.type = .publish
  | _ => False

theorem reports_serverBind {c c' : Impl} {url : String} {r : BindCalls} {x : ErrorType}
    (h : ServerImpl.bind strerror c url r = (x, c')) (heap : Heap) :
    Reports strerror ((ServerOp.bind url r).errno (c, heap)) (x = .notOk) c.strError c'.strError ∧
      c'.type = c.type := by
  rcases hc : c.createSocket r.socket with ⟨_ | e, d⟩
  · obtain ⟨hstrError, htype⟩ := createSocket_keeps hc
    rcases hb : d.context.bind d.socket url r.bind with ⟨_ | e, ctx⟩
    · simp only [ServerImpl.bind, ServerOp.errno, hc, hb] at h ⊢
      obtain ⟨rfl, rfl⟩ := Prod.mk.inj h
      exact ⟨⟨rfl, hstrError⟩, htype⟩
    · simp only [ServerImpl.bind, ServerOp.errno, hc, hb] at h ⊢
      obtain ⟨rfl, rfl⟩ := Prod.mk.inj h
      exact ⟨⟨rfl, rfl⟩, htype⟩
  · obtain ⟨-, htype⟩ := createSocket_keeps hc
    simp only [ServerImpl.bind, ServerOp.errno, hc] at h ⊢
    obtain ⟨rfl, rfl⟩ := Prod.mk.inj h
    exact ⟨⟨rfl, rfl⟩, htype⟩

theorem reports_serverOp (s : Impl × Heap) (o : ServerOp) (h : ¬ o.unstored s) :
    Reports strerror (o.errno s) (o.exec strerror s).1 s.1.strError
      (o.exec strerror s).2.1.strError := by
  cases o with
  | bind url r => exact (reports_serverBind strerror rfl s.2).1
  | publish message r => cases r <;> exact ⟨rfl, rfl⟩
  | receive r =>
      have htype : s.1.type ≠ .publish := h
      simp only [ServerOp.errno, if_neg htype]
      exact reports_receive strerror .server s.1 s.2 r fun _ => htype

theorem unstored_serverOp {s : Impl × Heap} {o : ServerOp} (h : o.unstored s) :
    o.errno s = none ∧ (o.exec strerror s).1 = true ∧
      (o.exec strerror s).2.1.strError = s.1.strError := by
  cases o with
  | bind url r => exact h.elim
  | publish message r => exact h.elim
  | receive r =>
      have htype : s.1.type = .publish := h
      simp [ServerOp.errno, ServerOp.exec, ServerImpl.receive, htype, isNull]

theorem reports_bind (k : BrokerClass) (b : Broker) (c : BindArgs) :
    Reports strerror (k.setUp b.context c).1 ((k.bind strerror b c).1 = .notOk) b.strError
      (k.bind strerror b c).2.strError := by
  obtain ⟨herror, -, hstrError⟩ := k.setUp_of_bind strerror b c
  rw [herror, hstrError]
  cases (k.setUp b.context c).1 with
  | none => exact ⟨rfl, rfl⟩
  | some e => exact ⟨rfl, rfl⟩

theorem type_serverOp (s : Impl × Heap) (o : ServerOp) :
    (o.exec strerror s).2.1.type = s.1.type := by
  cases o with
  | bind url r => exact (reports_serverBind strerror rfl s.2).2
  | publish message r => cases r <;> rfl
  | receive r => exact (receive_keeps strerror .server s.1 s.2 r).1

/-! ## Whole runs -/

section

variable {σ ω : Type*} {k : Reporter σ ω Errno String}

theorem faithful_of_reports (h : ∀ s o,
    Reports strerror (k.code s o) (k.exec s o).1 (k.text s) (k.text (k.exec s o).2)) :
    Faithful strerror k where
  failed s o e he := by
    have hreports := h s o
    rwa [he] at hreports
  passed s o he := by
    have hreports := h s o
    rw [he] at hreports
    exact hreports.2

theorem candid_of_reports {errno : Option Errno} {reported : Bool} {before after : String}
    (h : Reports strerror errno reported before after) : reported = true → errno ≠ none := by
  rintro hreported rfl
  exact absurd (hreported.symm.trans h.1) (by simp)

/-- A class of which each operation stores what it reports. -/
theorem current_of_reports (h : ∀ s o,
    Reports strerror (k.code s o) (k.exec s o).1 (k.text s) (k.text (k.exec s o).2))
    {object : σ} (hstart : k.text object = "") (ops : List ω) :
    Throughout k object ops Complete ∧ Throughout k object ops (Current strerror "" k) := by
  have hfaithful := faithful_of_reports strerror h
  refine ⟨complete_throughout hfaithful object ops, ?_⟩
  rw [current_throughout (I := fun _ => True) (D := fun _ => True) hfaithful]
  · simp
  · simp
  · intro s o _
    exact iff_true_intro (candid_of_reports strerror (h s o))
  · trivial
  · exact hstart

end

theorem faithful_server : Faithful strerror (serverReporter strerror) where
  failed s o e he := by
    by_cases hu : o.unstored s
    · have hnone : o.errno s = none := (unstored_serverOp strerror hu).1
      exact absurd (hnone.symm.trans he) (by simp)
    · have hreports := reports_serverOp strerror s o hu
      rwa [show o.errno s = some e from he] at hreports
  passed s o he := by
    by_cases hu : o.unstored s
    · exact (unstored_serverOp strerror hu).2.2
    · have hreports := reports_serverOp strerror s o hu
      rw [show o.errno s = none from he] at hreports
      exact hreports.2

theorem candid_serverOp (s : Impl × Heap) (o : ServerOp) :
    ((o.exec strerror s).1 = true → o.errno s ≠ none) ↔ ¬ o.unstored s := by
  constructor
  · intro h hu
    obtain ⟨hnone, hreported, -⟩ := unstored_serverOp strerror hu
    exact h hreported hnone
  · intro hu
    exact candid_of_reports strerror (reports_serverOp strerror s o hu)

theorem current_server (type : SocketType) (junkSocket : Handle) (junkAllocated : Bool)
    (heap : Heap) (ops : List ServerOp) :
    Throughout (serverReporter strerror) (.start type junkSocket junkAllocated, heap) ops
        (Current strerror "" (serverReporter strerror)) ↔
      (type = .publish → ∀ r, ServerOp.receive r ∉ ops) := by
  rw [current_throughout (I := fun s => s.1.type = type)
    (D := fun o => type = .publish → ∀ r, o ≠ .receive r) (faithful_server strerror)]
  · constructor
    · intro h htype r hr
      exact h _ hr htype r rfl
    · rintro h o ho htype r rfl
      exact h htype r ho
  · intro s o hs
    exact (type_serverOp strerror s o).trans hs
  · intro s o hs
    refine (candid_serverOp strerror s o).trans ?_
    cases o <;> simp [ServerOp.unstored, hs]
  · rfl
  · rfl

/-- Over every sequence of operations on an object of each class, every
failure is reported. The text is that of the last report all along, for a
`Server` exactly when it is not a publisher that is asked to receive. -/
theorem error_text (type : SocketType) (junkSocket : Handle) (junkAllocated : Bool) (heap : Heap)
    (k : BrokerClass) (junkBackend junkFrontend : Handle) :
    (∀ ops,
      Throughout (clientReporter strerror) (.start type junkSocket junkAllocated, heap) ops
        Complete ∧
      Throughout (clientReporter strerror) (.start type junkSocket junkAllocated, heap) ops
        (Current strerror "" (clientReporter strerror))) ∧
    (∀ ops,
      Throughout (serverReporter strerror) (.start type junkSocket junkAllocated, heap) ops
        Complete ∧
      (Throughout (serverReporter strerror) (.start type junkSocket junkAllocated, heap) ops
          (Current strerror "" (serverReporter strerror)) ↔
        (type = .publish → ∀ r, ServerOp.receive r ∉ ops))) ∧
    ∀ ops,
      Throughout (brokerReporter strerror k) (.start junkBackend junkFrontend) ops Complete ∧
      Throughout (brokerReporter strerror k) (.start junkBackend junkFrontend) ops
        (Current strerror "" (brokerReporter strerror k)) := by
  refine ⟨?_, ?_, ?_⟩
  · intro ops
    exact current_of_reports strerror (reports_clientOp strerror) rfl ops
  · intro ops
    exact ⟨complete_throughout (faithful_server strerror) _ ops,
      current_server strerror type junkSocket junkAllocated heap ops⟩
  · intro ops
    exact current_of_reports strerror (reports_bind strerror k) rfl ops

/-- A publisher is asked to receive after a `bind` that failed and another
that did not: the text is still that of the first `bind`. -/
theorem error_text_fails : ¬ ∀ (strerror : Errno → String) (type : SocketType)
    (junkSocket : Handle) (junkAllocated : Bool) (heap : Heap) (ops : List ServerOp),
    Throughout (serverReporter strerror) (.start type junkSocket junkAllocated, heap) ops
      (Current strerror "" (serverReporter strerror)) := by
  intro h
  obtain ⟨e, he, -⟩ := h (fun _ => "") .publish 0 false (fun _ => none)
    [.bind "tcp://*:5556" ⟨none, some .eaddrinuse⟩, .bind "tcp://*:5556" ⟨none, none⟩,
      .receive ⟨none, .ok (4, [])⟩] _ _ (List.prefix_refl _) rfl
  cases he

end ZeromqAgent
