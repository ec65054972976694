import Mathlib.Data.List.Perm.Basic
import ZeromqAgent.Worker

/-!
# A server that answers in its callback

A REP server whose receive callbacks answer with the synchronous
`publish`, once each. The socket takes receives and sends in turns only;
what keeps the turns is that the callback, with its send, runs before the
next handler.
-/

namespace ZeromqAgent.Lockstep

open Transition

variable {ρ : Type}

/-- The socket operations that have succeeded, with the request received or
replied to. -/
inductive Operation (ρ : Type) where
  | receive (q : ρ)
  | send (q : ρ)
  deriving DecidableEq

def exchange (q : ρ) : List (Operation ρ) := [.receive q, .send q]

def Operation.kind : Operation ρ → Operation Unit
  | .receive _ => .receive ()
  | .send _ => .send ()

def Operation.received : Operation ρ → Option ρ
  | .receive q => some q
  | .send _ => none

/-- `toPost` calls of `async_receive` are still to come. `waiting` has the
requests in the socket, `awaiting` the one received and not yet replied to.
`published` tells that the running callback has called `publish`, `refused`
counts the operations attempted out of turn. -/
structure System (ρ : Type) where
  worker : Worker Unit
  toPost : ℕ
  waiting : List ρ
  awaiting : Option ρ
  published : Bool
  log : List (Operation ρ)
  refused : ℕ

def System.start (n : ℕ) : System ρ := ⟨.start [], n, [], none, false, [], 0⟩

/-- `work` is the worker outside `zmq_msg_recv` and the callback, `receive` a
`zmq_msg_recv` that takes the request at some place of the socket's
queues, `fail` one that fails, whatever the error. -/
inductive Event (ρ : Type) where
  | post
  | arrive (q : ρ)
  | stop
  | work
  | receive (i : ℕ)
  | fail
  | publish
  | finish

/-- What the event does with the socket when it succeeds. -/
def Event.operation : Event ρ → Option (Operation Unit)
  | .receive _ => some (.receive ())
  | .publish => some (.send ())
  | _ => none

def Event.arrived : Event ρ → Option ρ
  | .arrive q => some q
  | _ => none

/-- A REP socket shows no request between a request and its reply. -/
def System.readable (s : System ρ) : Bool := !s.waiting.isEmpty && s.awaiting.isNone

/-- In turn the send succeeds and goes to the client whose request was
received, otherwise it is refused. -/
def System.publish (s : System ρ) : System ρ :=
  match s.awaiting with
  | some q => { s with awaiting := none, published := true, log := s.log ++ [.send q] }
  | none => { s with published := true, refused := s.refused + 1 }

def step (s : System ρ) : Event ρ → Option (System ρ)
  | .post =>
      match s.toPost with
      | 0 => none
      | n + 1 => some { s with worker := s.worker.post (.receive ()), toPost := n }
  | .arrive q => some { s with waiting := s.waiting ++ [q] }
  | .stop => some { s with worker := { s.worker with stopped := true } }
  | .work =>
      match s.worker.phase with
      | .recv _ => none
      | _ => (s.worker.step .server s.readable .go).map fun w => { s with worker := w }
  | .receive i =>
      match s.worker.phase, s.awaiting, s.waiting[i]? with
      | .recv _, none, some q =>
          (s.worker.step .server s.readable .go).map fun w =>
            { s with
              worker := w
              waiting := s.waiting.eraseIdx i
              awaiting := some q
              published := false
              log := s.log ++ [.receive q] }
      | _, _, _ => none
  | .fail =>
      (s.worker.step .server s.readable .fail).map fun w =>
        { s with worker := w, refused := s.refused + s.awaiting.isSome.toNat }
  | .publish =>
      match s.worker.phase, s.published with
      | .callback (.receive _), false => some s.publish
      | _, _ => none
  | .finish =>
      if s.published then
        (s.worker.step .server s.readable (.finish [])).map fun w => { s with worker := w }
      else none

/-- The turn in which the REP socket takes an operation. -/
def InTurn (s : System ρ) : Event ρ → Prop
  | .receive _ | .fail => s.awaiting = none
  | .publish => s.awaiting.isSome
  | _ => True

/-- Whether a receive is between its start and its callback. -/
def polling (w : Worker Unit) : ℕ :=
  match w.phase with
  | .poll _ | .recv _ => 1
  | _ => 0

/-- The log consists of exchanges and the request that awaits its reply.
It does so exactly while its callback runs and has not published. Each
receive that was or will be posted has at most one exchange. -/
structure Inv (n : ℕ) (qs : List ρ) (s : System ρ) : Prop where
  log : s.log = qs.flatMap exchange ++ s.awaiting.toList.map .receive
  awaiting : s.awaiting.isSome ↔
    s.worker.phase = .callback (.receive ()) ∧ s.published = false
  refused : s.refused = 0
  receives : ∀ task ∈ s.worker.tasks, task = .receive ()
  bound : s.toPost + s.worker.queue.length + polling s.worker + s.awaiting.isSome.toNat +
    qs.length ≤ n

theorem inv_start (n : ℕ) : Inv n [] (System.start (ρ := ρ) n) where
  log := rfl
  awaiting := by simp [System.start, Worker.start]
  refused := rfl
  receives := by simp [System.start, Worker.start, Worker.tasks, Phase.current]
  bound := by simp [System.start, Worker.start, polling]

theorem Inv.outside {n : ℕ} {qs : List ρ} {s : System ρ} (hs : Inv n qs s)
    (h : ¬ (s.worker.phase = .callback (.receive ()) ∧ s.published = false)) :
    s.awaiting = none := by
  have hnone : s.awaiting.isSome = false := by
    rw [Bool.eq_false_iff]
    exact fun hsome => h (hs.awaiting.mp hsome)
  simpa using hnone

/-- The worker goes on while no request awaits a reply. -/
theorem Inv.move {n : ℕ} {qs : List ρ} {s : System ρ} {w : Worker Unit} (hs : Inv n qs s)
    (hnone : s.awaiting = none) (hphase : w.phase ≠ .callback (.receive ()))
    (htasks : ∀ task ∈ w.tasks, task ∈ s.worker.tasks)
    (hlen : w.queue.length + polling w ≤ s.worker.queue.length + polling s.worker) :
    Inv n qs { s with worker := w } where
  log := hs.log
  awaiting := by simp [hnone, hphase]
  refused := hs.refused
  receives := fun task h => hs.receives task (htasks task h)
  bound := by
    have hbound := hs.bound
    dsimp only
    omega

theorem inv_work {n : ℕ} {qs : List ρ} {s t : System ρ} (hs : Inv n qs s)
    (h : step s .work = some t) : Inv n qs t := by
  simp only [step] at h
  split at h
  · cases h
  · next hrecv =>
      obtain ⟨w, hw, rfl⟩ := Option.map_eq_some_iff.mp h
      cases Worker.step_cases hw with
      | setup hp =>
          apply hs.move (hs.outside (by simp [hp]))
          · simp [Worker.setUp]
          · simp [Worker.tasks, Worker.setUp, Phase.current, hp]
          · simp [Worker.setUp, polling, hp]
      | enter hp =>
          apply hs.move (hs.outside (by simp [hp]))
          · simp [Worker.setUpRest]
          · simp [Worker.tasks, Worker.setUpRest, Phase.current, hp]
          · simp [Worker.setUpRest, polling, hp]
      | leave hp _ =>
          apply hs.move (hs.outside (by simp [hp]))
          · simp [Worker.leave]
          · simp [Worker.tasks, Worker.leave, Phase.current, hp]
          · simp [Worker.leave, polling, hp]
      | take task rest hp _ hq =>
          obtain rfl : task = .receive () := by
            apply hs.receives
            simp [Worker.tasks, hq]
          apply hs.move (hs.outside (by simp [hp]))
          · simp [Task.phase]
          · simp [Worker.tasks, Task.phase, Phase.current, hp, hq]
          · simp [Task.phase, polling, hp, hq]
      | send k hp =>
          have hsend := hs.receives (.send k) (by simp [Worker.tasks, Phase.current, hp])
          cases hsend
      | poll k hp _ =>
          apply hs.move (hs.outside (by simp [hp]))
          · simp
          · simp [Worker.tasks, Phase.current, hp]
          · simp [polling, hp]
      | recv k hp => exact (hrecv k hp).elim

theorem inv_receive {n : ℕ} {qs : List ρ} {s t : System ρ} {i : ℕ} (hs : Inv n qs s)
    (h : step s (.receive i) = some t) : Inv n qs t := by
  simp only [step] at h
  split at h
  · next k q hp hnone hget =>
      obtain ⟨w, hw, rfl⟩ := Option.map_eq_some_iff.mp h
      obtain rfl : w = { s.worker with phase := .callback (.receive k) } := by
        simpa [Worker.step, hp, eq_comm] using hw
      have hbound := hs.bound
      have hlog := hs.log
      simp only [polling, hp, hnone, Option.isSome_none, Bool.toNat_false] at hbound
      rw [hnone] at hlog
      constructor
      · simpa using hlog
      · simp
      · exact hs.refused
      · intro task htask
        apply hs.receives
        simpa [Worker.tasks, Phase.current, hp] using htask
      · simp only [polling, Option.isSome_some, Bool.toNat_true]
        omega
  · cases h

theorem inv_fail {n : ℕ} {qs : List ρ} {s t : System ρ} (hs : Inv n qs s)
    (h : step s .fail = some t) : Inv n qs t := by
  obtain ⟨w, hw, rfl⟩ := Option.map_eq_some_iff.mp h
  cases Worker.step_cases hw with
  | recvFail k hp =>
      have hnone := hs.outside (by simp [hp])
      have hmove : Inv n qs { s with worker := { s.worker with phase := .idle } } := by
        apply hs.move hnone
        · simp
        · simp +contextual [Worker.tasks, Phase.current]
        · simp [polling, hp]
      simpa [hnone] using hmove

/-- A callback that publishes has a request that awaits its reply. -/
theorem inv_publish {n : ℕ} {qs : List ρ} {s t : System ρ} (hs : Inv n qs s)
    (h : step s .publish = some t) : ∃ q, Inv n (qs ++ [q]) t := by
  simp only [step] at h
  split at h
  · next k hp hpublished =>
      obtain rfl := Option.some.inj h
      obtain ⟨q, hq⟩ := Option.isSome_iff_exists.mp (hs.awaiting.mpr ⟨hp, hpublished⟩)
      have hlog := hs.log
      have hbound := hs.bound
      rw [hq] at hlog
      simp only [polling, hp, hq, Option.isSome_some, Bool.toNat_true] at hbound
      simp only [System.publish, hq]
      refine ⟨q, ?_, ?_, hs.refused, hs.receives, ?_⟩
      · simp [hlog, exchange]
      · simp
      · simp only [polling, hp, Option.isSome_none, Bool.toNat_false, List.length_append,
          List.length_singleton]
        omega
  · cases h

theorem inv_finish {n : ℕ} {qs : List ρ} {s t : System ρ} (hs : Inv n qs s)
    (h : step s .finish = some t) : Inv n qs t := by
  obtain ⟨hpublished, h⟩ := Option.ite_none_right_eq_some.mp h
  obtain ⟨w, hw, rfl⟩ := Option.map_eq_some_iff.mp h
  cases Worker.step_cases hw with
  | finish task posts hp =>
      apply hs.move (hs.outside (by simp [hpublished]))
      · simp
      · simp +contextual [Worker.tasks, Phase.current]
      · simp [polling, hp]

theorem inv_step {n : ℕ} : Preserves step fun s : System ρ => ∃ qs, Inv n qs s := by
  rintro s e t h ⟨qs, hs⟩
  cases e with
  | post =>
      simp only [step] at h
      split at h
      · cases h
      · next k hk =>
          obtain rfl := Option.some.inj h
          refine ⟨qs, hs.log, hs.awaiting, hs.refused, ?_, ?_⟩
          · intro task htask
            simp only [Worker.tasks, Worker.post, ← List.append_assoc, List.mem_append,
              List.mem_singleton] at htask
            rcases htask with htask | rfl
            · exact hs.receives task (by simpa [Worker.tasks] using htask)
            · rfl
          · have hbound := hs.bound
            simp only [hk] at hbound
            simp only [Worker.post, polling, List.length_append, List.length_singleton] at hbound ⊢
            omega
  | arrive q =>
      obtain rfl := Option.some.inj h
      exact ⟨qs, hs.log, hs.awaiting, hs.refused, hs.receives, hs.bound⟩
  | stop =>
      obtain rfl := Option.some.inj h
      exact ⟨qs, hs.log, hs.awaiting, hs.refused, hs.receives, hs.bound⟩
  | work => exact ⟨qs, inv_work hs h⟩
  | receive i => exact ⟨qs, inv_receive hs h⟩
  | fail => exact ⟨qs, inv_fail hs h⟩
  | publish =>
      obtain ⟨q, hq⟩ := inv_publish hs h
      exact ⟨qs ++ [q], hq⟩
  | finish => exact ⟨qs, inv_finish hs h⟩

theorem inTurn_of_step {n : ℕ} {s t : System ρ} {e : Event ρ} (hs : ∃ qs, Inv n qs s)
    (h : step s e = some t) : InTurn s e := by
  obtain ⟨qs, hs⟩ := hs
  cases e with
  | receive i =>
      simp only [step] at h
      split at h
      · next k q hp hnone hget => exact hnone
      · cases h
  | fail =>
      obtain ⟨w, hw, -⟩ := Option.map_eq_some_iff.mp h
      cases Worker.step_cases hw with
      | recvFail k hp => exact hs.outside (by simp [hp])
  | publish =>
      simp only [step] at h
      split at h
      · next k hp hpublished => exact hs.awaiting.mpr ⟨hp, hpublished⟩
      · cases h
  | post | arrive q | stop | work | finish => trivial

/-! ## The events of a run and its operations -/

/-- The log has one entry for each event that operates on the socket, and a
request is received once or still in the socket. -/
structure Traced (es : List (Event ρ)) (s : System ρ) : Prop where
  operations : s.log.map Operation.kind = es.filterMap Event.operation
  requests : (s.log.filterMap Operation.received ++ s.waiting).Perm (es.filterMap Event.arrived)

theorem Traced.frame {es : List (Event ρ)} {s t : System ρ} {e : Event ρ} (hs : Traced es s)
    (hlog : t.log = s.log) (hwaiting : t.waiting = s.waiting) (hoperation : e.operation = none)
    (harrived : e.arrived = none) : Traced (es ++ [e]) t := by
  constructor
  · simpa [hlog, hoperation] using hs.operations
  · simpa [hlog, hwaiting, harrived] using hs.requests

theorem traced_receive {es : List (Event ρ)} {s t : System ρ} {i : ℕ} (hs : Traced es s)
    (h : step s (.receive i) = some t) : Traced (es ++ [.receive i]) t := by
  simp only [step] at h
  split at h
  · next k q hp hnone hget =>
      obtain ⟨w, -, rfl⟩ := Option.map_eq_some_iff.mp h
      obtain ⟨hlt, rfl⟩ := List.getElem?_eq_some_iff.mp hget
      constructor
      · simp [hs.operations, Operation.kind, Event.operation]
      · have htaken : (s.waiting[i] :: s.waiting.eraseIdx i).Perm s.waiting :=
          List.getElem_cons_eraseIdx_perm hlt
        have hrequests :=
          (htaken.append_left (s.log.filterMap Operation.received)).trans hs.requests
        simpa [List.filterMap_cons, Operation.received, Event.arrived] using hrequests
  · cases h

theorem traced_publish {es : List (Event ρ)} {s t : System ρ} (hs : Traced es s)
    (hturn : s.awaiting.isSome) (h : step s .publish = some t) : Traced (es ++ [.publish]) t := by
  obtain ⟨q, hq⟩ := Option.isSome_iff_exists.mp hturn
  simp only [step] at h
  split at h
  · obtain rfl := Option.some.inj h
    simp only [System.publish, hq]
    constructor
    · simp [hs.operations, Operation.kind, Event.operation]
    · simpa [List.filterMap_cons, Operation.received, Event.arrived] using hs.requests
  · cases h

theorem traced_step {es : List (Event ρ)} {s t : System ρ} {e : Event ρ} (hs : Traced es s)
    (hturn : InTurn s e) (h : step s e = some t) : Traced (es ++ [e]) t := by
  cases e with
  | post =>
      simp only [step] at h
      split at h
      · cases h
      · obtain rfl := Option.some.inj h
        exact hs.frame rfl rfl rfl rfl
  | arrive q =>
      obtain rfl := Option.some.inj h
      constructor
      · simpa [List.filterMap_cons, Event.operation] using hs.operations
      · have hrequests := hs.requests.append_right [q]
        simpa [List.filterMap_cons, Event.arrived] using hrequests
  | stop =>
      obtain rfl := Option.some.inj h
      exact hs.frame rfl rfl rfl rfl
  | work =>
      simp only [step] at h
      split at h
      · cases h
      · obtain ⟨w, -, rfl⟩ := Option.map_eq_some_iff.mp h
        exact hs.frame rfl rfl rfl rfl
  | receive i => exact traced_receive hs h
  | fail =>
      obtain ⟨w, -, rfl⟩ := Option.map_eq_some_iff.mp h
      exact hs.frame rfl rfl rfl rfl
  | publish => exact traced_publish hs hturn h
  | finish =>
      obtain ⟨-, h⟩ := Option.ite_none_right_eq_some.mp h
      obtain ⟨w, -, rfl⟩ := Option.map_eq_some_iff.mp h
      exact hs.frame rfl rfl rfl rfl

theorem received_exchanges (qs : List ρ) :
    (qs.flatMap exchange).filterMap Operation.received = qs := by
  induction qs with
  | nil => rfl
  | cons q qs ih => simpa [List.filterMap_cons, exchange, Operation.received] using ih

theorem sends_exchanges (qs : List ρ) :
    ((qs.flatMap exchange).map Operation.kind).count (.send ()) = qs.length := by
  induction qs with
  | nil => rfl
  | cons q qs ih => simpa [exchange, Operation.kind] using ih

/-- In every run the operations of the socket are those of its receives and
its calls of `publish`, in order and each in turn. They are exchanges, each
a request and its reply, and at most one request that still awaits its
reply; at most `n` replies are sent, and none of the requests that arrived
is answered twice. -/
theorem lockstep {n : ℕ} {es : List (Event ρ)} {s : System ρ}
    (hr : run step (.start n) es = some s) :
    (∃ qs : List ρ, s.log = qs.flatMap exchange ++ s.awaiting.toList.map .receive ∧
        qs.length ≤ n ∧
        (qs ++ s.awaiting.toList ++ s.waiting).Perm (es.filterMap Event.arrived)) ∧
      s.log.map Operation.kind = es.filterMap Event.operation ∧
      (es.filterMap Event.operation).count (.send ()) ≤ n ∧
      Meets step InTurn (.start n) es ∧ s.refused = 0 := by
  have hstart : ∃ qs, Inv n qs (System.start (ρ := ρ) n) := ⟨[], inv_start n⟩
  have hmeets : Meets step InTurn (.start n) es :=
    meets_of_preserves inv_step (fun _ _ _ => inTurn_of_step) hr hstart
  have htraced : (∃ qs, Inv n qs s) ∧ Traced es s :=
    run_history (P := fun es s => (∃ qs, Inv n qs s) ∧ Traced es s) hr
      ⟨hstart, rfl, List.Perm.refl _⟩ fun _ _ _ _ hs h =>
        ⟨inv_step h hs.1, traced_step hs.2 (inTurn_of_step hs.1 h) h⟩
  obtain ⟨⟨qs, hs⟩, htraced⟩ := htraced
  have hbound := hs.bound
  have hreceived : s.log.filterMap Operation.received = qs ++ s.awaiting.toList := by
    rw [hs.log, List.filterMap_append, received_exchanges]
    cases s.awaiting <;> rfl
  have hsent : (s.log.map Operation.kind).count (.send ()) = qs.length := by
    rw [hs.log, List.map_append, List.count_append, sends_exchanges]
    cases s.awaiting <;> rfl
  refine ⟨⟨qs, hs.log, by omega, hreceived ▸ htraced.requests⟩, htraced.operations, ?_, hmeets,
    hs.refused⟩
  rw [← htraced.operations, hsent]
  omega

/-- Three receives and two requests: the second receive loses its message
between `zmq_poll` and `zmq_msg_recv`, and the request that came later is
taken first. -/
def interrupted : List (Event Bool) :=
  [.post, .post, .post, .arrive true, .arrive false, .work, .work, .work, .work, .receive 1,
    .publish, .finish, .work, .work, .fail, .work, .work, .receive 0]

theorem lockstep_interrupted : ∃ s : System Bool, run step (.start 3) interrupted = some s ∧
    s.log = [.receive false, .send false, .receive true] ∧
    s.log.map Operation.kind = interrupted.filterMap Event.operation ∧
    Meets step InTurn (.start 3) interrupted ∧ s.refused = 0 := by
  obtain ⟨s, hs, hlog⟩ : ∃ s, run step (.start 3) interrupted = some s ∧
      s.log = [.receive false, .send false, .receive true] := ⟨_, rfl, rfl⟩
  obtain ⟨-, hoperations, -, hmeets, hrefused⟩ := lockstep hs
  exact ⟨s, hs, hlog, hoperations, hmeets, hrefused⟩

end ZeromqAgent.Lockstep
