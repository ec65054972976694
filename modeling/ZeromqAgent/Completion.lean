import ZeromqAgent.Session

/-!
# Callbacks of the asynchronous operations

The handlers of a session in the order of the calls that posted them, with
the callbacks they invoke and the messages they take from the socket. The
handler of a send always comes to its callback, that of a receive only
when `zmq_msg_recv` yields a message.
-/

namespace ZeromqAgent.Completion

open Transition

variable (strerror : Errno → String)

inductive Argument where
  | status (status : Status)
  | message (message : SendMessage)
  deriving DecidableEq

def Argument.message? : Argument → Option SendMessage
  | .status _ => none
  | .message m => some m

/-- What the handler passes to its callback, if it comes to it. -/
def invoke (role : Role) (s : Session) (send : SendCalls) (receive : PollCalls) :
    Handler → Option Argument
  | .receive => (s.impl.receiveHandler strerror receive).1.map .message
  | .send message =>
      match role with
      | .client =>
          some (.status (ClientImpl.sendWorker strerror s.impl message .dontwait send).1)
      | .server =>
          some (.status
            (ServerImpl.publishWorker strerror s.impl s.heap message .dontwait send.send).1)

/-- The message that the handler takes from the socket. -/
def take (receive : PollCalls) : Handler → Option (Addr × Bytes)
  | .receive => if receive.readable then receive.recv.toOption else none
  | .send _ => none

/-- `calls` has the handlers posted so far. The first `executed` of them have
run to their end; `invoked` has their callbacks by the number of the call. -/
structure State where
  session : Session
  calls : List Handler
  executed : ℕ
  invoked : List (ℕ × Argument)
  taken : List (Addr × Bytes)

/-- An object in any state, with no handler posted. -/
def start (session : Session) : State where
  session := { session with posted := [] }
  calls := []
  executed := 0
  invoked := []
  taken := []

def State.post (s : State) (t : Session) (p : Handler) : State :=
  { s with session := t, calls := s.calls ++ [p] }

def State.execute (role : Role) (s : State) (t : Session) (send : SendCalls)
    (receive : PollCalls) (p : Handler) : State :=
  { s with
    session := t
    executed := s.executed + 1
    invoked := s.invoked ++
      ((invoke strerror role s.session send receive p).map (Prod.mk s.executed)).toList
    taken := s.taken ++ (take receive p).toList }

def step (role : Role) (s : State) (o : Operate) : Option State :=
  (s.session.step strerror role o).map fun t =>
    match o, s.session.posted with
    | .asyncSend message, _ => s.post t (.send message)
    | .asyncReceive, _ => s.post t .receive
    | .work send receive, p :: _ => s.execute strerror role t send receive p
    | _, _ => { s with session := t }

/-- A handler of a receive is executed only with a message to take. -/
def Answers (s : State) : Operate → Prop
  | .work _ receive =>
      s.session.posted.head? = some .receive →
        receive.readable = true ∧ receive.recv.toOption.isSome
  | _ => True

def messages (s : State) : List SendMessage := s.invoked.filterMap fun p => p.2.message?

/-- Each handler that has run has invoked its callback once, in the order of
the calls, and the messages delivered are those taken. -/
def Completed (s : State) : Prop :=
  s.invoked.map Prod.fst = List.range s.executed ∧
    messages s = s.taken.map fun p => .ofPtr p.1 (toInt p.2.length)

/-! ## One operation -/

theorem posted_of_step {role : Role} {s t : Session} {o : Operate}
    (h : s.step strerror role o = some t) (hsend : ∀ message, o ≠ .asyncSend message)
    (hreceive : o ≠ .asyncReceive) (hwork : ∀ send receive, o ≠ .work send receive) :
    t.posted = s.posted := by
  cases (session_step_cases strerror h).2 with
  | post o p ho =>
      rcases ho with rfl | ⟨message, rfl⟩
      · exact (hreceive rfl).elim
      · exact (hsend message rfl).elim
  | work send receive p rest hposted => exact (hwork send receive rfl).elim
  | _ => rfl

theorem step_cases {role : Role} {s t : State} {o : Operate}
    (h : step strerror role s o = some t) :
    (∃ u p, u.posted = s.session.posted ++ [p] ∧ t = s.post u p ∧
        ∀ send receive, o ≠ .work send receive) ∨
      (∃ u send receive p, o = .work send receive ∧ s.session.posted = p :: u.posted ∧
        t = s.execute strerror role u send receive p) ∨
      ∃ u, u.posted = s.session.posted ∧ t = { s with session := u } ∧
        ∀ send receive, o ≠ .work send receive := by
  obtain ⟨u, hu, rfl⟩ := Option.map_eq_some_iff.mp h
  cases o with
  | asyncSend message =>
      refine .inl ⟨u, .send message, ?_, rfl, by simp⟩
      simp only [Session.step, Option.ite_none_left_eq_some, Option.ite_none_right_eq_some] at hu
      rw [← Option.some.inj hu.2.2]
  | asyncReceive =>
      refine .inl ⟨u, .receive, ?_, rfl, by simp⟩
      simp only [Session.step, Option.ite_none_left_eq_some, Option.ite_none_right_eq_some] at hu
      rw [← Option.some.inj hu.2.2]
  | work send receive =>
      cases (session_step_cases strerror hu).2 with
      | work send receive p rest hposted =>
          refine .inr (.inl ⟨{ s.session with
            impl := p.run strerror role s.session.impl s.session.heap send receive
            posted := rest }, send, receive, p, rfl, hposted, ?_⟩)
          rw [hposted]
      | post o p ho => rcases ho with ho | ⟨message, ho⟩ <;> cases ho
  | connect url r | bind url r | send message r | publish message r | receive r
  | memory a block | destroy =>
      have hposted := posted_of_step strerror hu (by simp) (by simp) (by simp)
      exact .inr (.inr ⟨u, hposted, rfl, by simp⟩)

/-- The handlers are executed in the order of the calls; callbacks are
invoked in that order, none twice, and each message taken is delivered. -/
structure Ledger (s : State) : Prop where
  posted : s.calls = s.calls.take s.executed ++ s.session.posted
  executed : s.executed ≤ s.calls.length
  invoked : (s.invoked.map Prod.fst).Sublist (List.range s.executed)
  delivered : messages s = s.taken.map fun p => .ofPtr p.1 (toInt p.2.length)

theorem ledger_start (session : Session) : Ledger (start session) where
  posted := rfl
  executed := Nat.le_refl 0
  invoked := List.Sublist.refl _
  delivered := rfl

/-- A handler delivers what it takes. -/
theorem delivered_of_invoke (role : Role) (s : Session) (send : SendCalls)
    (receive : PollCalls) (p : Handler) (k : ℕ) :
    ((invoke strerror role s send receive p).map (Prod.mk k)).toList.filterMap
        (fun p => p.2.message?) =
      (take receive p).toList.map fun p => .ofPtr p.1 (toInt p.2.length) := by
  cases p with
  | send message => cases role <;> rfl
  | receive =>
      obtain ⟨readable, recv⟩ := receive
      cases readable with
      | false => rfl
      | true =>
          cases recv with
          | error e => rfl
          | ok taken => rfl

/-- The handler of a send always invokes its callback. -/
theorem isSome_invoke (role : Role) (s : Session) (send : SendCalls) (receive : PollCalls)
    (p : Handler) :
    (invoke strerror role s send receive p).isSome ↔
      (p = .receive → receive.readable = true ∧ receive.recv.toOption.isSome) := by
  cases p with
  | send message => cases role <;> simp [invoke]
  | receive =>
      obtain ⟨readable, recv⟩ := receive
      cases readable with
      | false => simp [invoke, Impl.receiveHandler]
      | true =>
          cases recv with
          | error e => simp [invoke, Impl.receiveHandler, Except.toOption]
          | ok taken => simp [invoke, Impl.receiveHandler, Except.toOption]

theorem ledger_step (role : Role) : Preserves (step strerror role) Ledger := by
  intro s o t h hs
  rcases step_cases strerror h with ⟨u, p, hu, rfl, -⟩ | ⟨u, send, receive, p, -, hu, rfl⟩ |
    ⟨u, hu, rfl, -⟩
  · refine ⟨?_, ?_, hs.invoked, hs.delivered⟩
    · rw [State.post, hu, List.take_append_of_le_length hs.executed, ← List.append_assoc,
        ← hs.posted]
    · simpa [State.post] using Nat.le_succ_of_le hs.executed
  · have hcalls := hs.posted
    rw [hu] at hcalls
    have hlen := congrArg List.length hcalls
    simp only [List.length_append, List.length_take, List.length_cons] at hlen
    have hexecuted := hs.executed
    refine ⟨?_, ?_, ?_, ?_⟩
    · have hget : s.calls[s.executed]? = some p := by
        have htake : (s.calls.take s.executed).length = s.executed := by simp [hexecuted]
        rw [hcalls, List.getElem?_append_right (Nat.le_of_eq htake), htake]
        simp
      simp only [State.execute, List.take_add_one, hget]
      simpa using hcalls
    · simp only [State.execute]
      omega
    · simp only [State.execute, List.map_append, List.range_succ]
      apply hs.invoked.append
      cases invoke strerror role s.session send receive p with
      | none => exact List.nil_sublist _
      | some argument => exact List.Sublist.refl _
    · have hnew := delivered_of_invoke strerror role s.session send receive p s.executed
      have hold := hs.delivered
      simp only [messages, State.execute, List.filterMap_append, List.map_append] at hold ⊢
      rw [hold, hnew]
  · exact ⟨hu ▸ hs.posted, hs.executed, hs.invoked, hs.delivered⟩

/-- An operation leaves no handler without its callback exactly when the
handler that it executes, if any, comes to it. -/
theorem invoked_of_step {role : Role} {s t : State} {o : Operate}
    (hs : s.invoked.map Prod.fst = List.range s.executed)
    (h : step strerror role s o = some t) :
    t.invoked.map Prod.fst = List.range t.executed ↔ Answers s o := by
  have hanswers : (∀ send receive, o ≠ .work send receive) → Answers s o := by
    intro ho
    cases o with
    | work send receive => exact (ho send receive rfl).elim
    | _ => trivial
  rcases step_cases strerror h with ⟨u, p, hu, rfl, ho⟩ | ⟨u, send, receive, p, rfl, hu, rfl⟩ |
    ⟨u, hu, rfl, ho⟩
  · exact iff_of_true hs (hanswers ho)
  · have hanswer := isSome_invoke strerror role s.session send receive p
    simp only [Answers, hu, List.head?_cons, Option.some_inj]
    rw [← hanswer, State.execute, List.map_append, hs, List.range_succ, List.append_cancel_left_eq]
    cases invoke strerror role s.session send receive p with
    | none => simp
    | some argument => simp
  · exact iff_of_true hs (hanswers ho)

/-- In every run the callbacks come in the order of the calls, none twice,
with the messages taken and no others; every handler that has run has
invoked its callback exactly when each receive found a message. -/
theorem completion {role : Role} {session : Session} {ops : List Operate} {s : State}
    (hr : run (step strerror role) (start session) ops = some s) :
    Ledger s ∧
      ((∀ before t, before <+: ops →
          run (step strerror role) (start session) before = some t → Completed t) ↔
        Meets (step strerror role) Answers (start session) ops) := by
  have hstart := ledger_start session
  have hkeep : PreservesUnder (step strerror role) Answers fun s => Ledger s ∧ Completed s := by
    intro t o u hanswers hstep ht
    have hu := ledger_step strerror role hstep ht.1
    exact ⟨hu, (invoked_of_step strerror ht.2.1 hstep).mpr hanswers, hu.delivered⟩
  refine ⟨(ledger_step strerror role).run hr hstart, ?_⟩
  apply forall_reached_iff_meets (fun t ht => ht.2) hkeep ?_ hr ⟨hstart, rfl, rfl⟩
  intro t o u ht hanswers hstep hcompleted
  exact hanswers ((invoked_of_step strerror ht.2.1 hstep).mp hcompleted.1)

instance decidableAnswers : ∀ (s : State) (o : Operate), Decidable (Answers s o)
  | s, .work _ receive =>
      inferInstanceAs (Decidable (s.session.posted.head? = some .receive →
        receive.readable = true ∧ receive.recv.toOption.isSome))
  | _, .connect _ _ | _, .bind _ _ | _, .send _ _ | _, .publish _ _ | _, .receive _
  | _, .asyncSend _ | _, .asyncReceive | _, .memory _ _ | _, .destroy =>
      inferInstanceAs (Decidable True)

/-- A send that fails and a receive, executed after both calls. -/
def answered : List Operate :=
  [.connect "url" ⟨none, none, none⟩, .asyncSend (.ofPtr 4 1), .asyncReceive,
    .work ⟨none, some .eagain⟩ ⟨false, .error .eagain⟩,
    .work ⟨none, none⟩ ⟨true, .ok (5, [7])⟩]

theorem completion_answered : ∃ s,
    run (step (fun _ => "") .client) (start (.start .request 0 false)) answered = some s ∧
      s.invoked.map Prod.fst = [0, 1] ∧ messages s = [.ofPtr 5 1] := by
  obtain ⟨s, hs, hexecuted, htaken⟩ : ∃ s, run (step (fun _ => "") .client)
      (start (.start .request 0 false)) answered = some s ∧ s.executed = 2 ∧
      s.taken = [(5, [7])] :=
    ⟨_, rfl, rfl, rfl⟩
  have hm : Meets (step (fun _ => "") .client) Answers (start (.start .request 0 false))
      answered := by
    decide
  obtain ⟨hinvoked, hmessages⟩ :=
    ((completion (fun _ => "") hs).2.mpr hm) answered s (List.prefix_refl _) hs
  rw [hexecuted] at hinvoked
  rw [htaken] at hmessages
  exact ⟨s, hs, hinvoked, hmessages⟩

/-- A receive for which the message is gone between `zmq_poll` and `zmq_msg_recv`. -/
theorem completion_fails : ¬ ∀ (strerror : Errno → String) (role : Role) (session : Session)
    (ops : List Operate) (s : State),
    run (step strerror role) (start session) ops = some s → Completed s := by
  intro h
  have hinvoked := (h (fun _ => "") .client (.start .request 0 false)
    [.connect "url" ⟨none, none, none⟩, .asyncReceive,
      .work ⟨none, none⟩ ⟨true, .error .eagain⟩] _ rfl).1
  exact absurd hinvoked (by decide)

end ZeromqAgent.Completion
