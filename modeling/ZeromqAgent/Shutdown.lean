import ZeromqAgent.Worker

/-!
# Destruction of a client or server

The owner's thread and the worker's, with the messages that arrive on the
socket. The destructor tests `m_running`, stops the io_context if it was
set and joins the worker. It can wait for ever: when the worker had not
yet set `m_running`, and when a handler waits in its `zmq_poll` for a
message that does not come.
-/

namespace ZeromqAgent.Shutdown

open Transition

/-- Where the owner is: outside the destructor, past the test of
`m_running`, in `join`, past it, or past the destructor. -/
inductive Owner where
  | live
  | stopping
  | joining
  | closing
  | done
  deriving DecidableEq

/-- `readable` counts the messages in the socket, `toArrive` those that are
still to come. -/
structure System where
  owner : Owner
  worker : Worker Unit
  readable : ℕ
  toArrive : ℕ

def System.start (toArrive : ℕ) : System := ⟨.live, .start [], 0, toArrive⟩

inductive Event where
  | post (task : Task Unit)
  | test
  | stop
  | join
  | close
  | arrive
  | work (m : Move Unit)

def received (w : Worker Unit) : Move Unit → ℕ
  | .go => if w.phase = .recv () then 1 else 0
  | _ => 0

def step (role : Role) (s : System) : Event → Option System
  | .post task =>
      if s.owner = .live then some { s with worker := s.worker.post task } else none
  | .test =>
      if s.owner = .live then
        some { s with owner := if s.worker.running then .stopping else .joining }
      else none
  | .stop =>
      if s.owner = .stopping then
        some { s with owner := .joining, worker := { s.worker with stopped := true } }
      else none
  | .join =>
      if s.owner = .joining ∧ s.worker.phase = .returned then some { s with owner := .closing }
      else none
  | .close => if s.owner = .closing then some { s with owner := .done } else none
  | .arrive =>
      match s.toArrive with
      | 0 => none
      | n + 1 => some { s with readable := s.readable + 1, toArrive := n }
  | .work m =>
      if received s.worker m ≤ s.readable then
        (s.worker.step role (0 < s.readable) m).map fun w =>
          { s with worker := w, readable := s.readable - received s.worker m }
      else none

inductive Step (role : Role) (s : System) : Event → System → Prop
  | post (task : Task Unit) (ho : s.owner = .live) :
      Step role s (.post task) { s with worker := s.worker.post task }
  | test (ho : s.owner = .live) :
      Step role s .test { s with owner := if s.worker.running then .stopping else .joining }
  | stop (ho : s.owner = .stopping) :
      Step role s .stop { s with owner := .joining, worker := { s.worker with stopped := true } }
  | join (ho : s.owner = .joining) (hw : s.worker.phase = .returned) :
      Step role s .join { s with owner := .closing }
  | close (ho : s.owner = .closing) : Step role s .close { s with owner := .done }
  | arrive (n : ℕ) (hn : s.toArrive = n + 1) :
      Step role s .arrive { s with readable := s.readable + 1, toArrive := n }
  | work (m : Move Unit) (w : Worker Unit) (hw : s.worker.step role (0 < s.readable) m = some w) :
      Step role s (.work m) { s with worker := w, readable := s.readable - received s.worker m }

theorem step_cases {role : Role} {s t : System} {e : Event} (h : step role s e = some t) :
    Step role s e t := by
  cases e with
  | post task =>
      obtain ⟨ho, h⟩ := Option.ite_none_right_eq_some.mp h
      exact Option.some.inj h ▸ .post task ho
  | test =>
      obtain ⟨ho, h⟩ := Option.ite_none_right_eq_some.mp h
      exact Option.some.inj h ▸ .test ho
  | stop =>
      obtain ⟨ho, h⟩ := Option.ite_none_right_eq_some.mp h
      exact Option.some.inj h ▸ .stop ho
  | join =>
      obtain ⟨⟨ho, hw⟩, h⟩ := Option.ite_none_right_eq_some.mp h
      exact Option.some.inj h ▸ .join ho hw
  | close =>
      obtain ⟨ho, h⟩ := Option.ite_none_right_eq_some.mp h
      exact Option.some.inj h ▸ .close ho
  | arrive =>
      simp only [step] at h
      split at h
      · cases h
      · next n hn => exact Option.some.inj h ▸ .arrive n hn
  | work m =>
      obtain ⟨-, h⟩ := Option.ite_none_right_eq_some.mp h
      obtain ⟨w, hw, rfl⟩ := Option.map_eq_some_iff.mp h
      exact .work m w hw

def System.Starved (s : System) : Prop :=
  s.worker.phase = .poll () ∧ s.readable = 0 ∧ s.toArrive = 0

instance (s : System) : Decidable s.Starved := by
  unfold System.Starved
  infer_instance

/-- The destructor waits for a worker that cannot leave `m_io.run`. -/
def System.Deadlocked (s : System) : Prop :=
  s.owner = .joining ∧ ((s.worker.stopped = false ∧ s.worker.guard = true) ∨ s.Starved)

instance (s : System) : Decidable s.Deadlocked := by
  unfold System.Deadlocked
  infer_instance

/-- The destructor tests `m_running` after the worker has set it, and stops
the io_context while the worker is not in a `zmq_poll` that nothing wakes. -/
def Timely (s : System) : Event → Prop
  | .test => s.worker.running = true
  | .stop => ¬ s.Starved
  | _ => True

instance (s : System) (e : Event) : Decidable (Timely s e) := by
  cases e <;> unfold Timely <;> infer_instance

/-! ## Runs that meet the condition -/

/-- The owner joins a stopped io_context, and a worker that polls after the
stop will have a message. -/
structure Inv (s : System) : Prop where
  stopped : s.owner = .joining → s.worker.stopped = true
  woken : s.worker.stopped = true → ¬ s.Starved

theorem inv_start (n : ℕ) : Inv (.start n) := by
  constructor
  · simp [System.start]
  · simp [System.start, Worker.start]

theorem inv_step (role : Role) : PreservesUnder (step role) Timely Inv := by
  intro s e t htimely h hi
  cases step_cases h with
  | post task ho => exact ⟨hi.stopped, hi.woken⟩
  | test ho =>
      have hrunning : s.worker.running = true := htimely
      exact ⟨by simp [hrunning], hi.woken⟩
  | stop ho => exact ⟨fun _ => rfl, fun _ => htimely⟩
  | join ho hw => exact ⟨by simp, hi.woken⟩
  | close ho => exact ⟨by simp, hi.woken⟩
  | arrive n hn => exact ⟨hi.stopped, by simp [System.Starved]⟩
  | work m w hw =>
      have hstopped := Worker.stopped_of_step hw
      refine ⟨fun ho => hstopped.trans (hi.stopped ho), ?_⟩
      -- a `zmq_poll` that the worker has just entered was entered before the stop
      intro hs hstarved
      have hnot := Worker.poll_of_step hw hstarved.1
      rw [← hstopped, hs] at hnot
      cases hnot

/-! ## Deadlocks -/

/-- The parts of the state that the two threads agree on in every run. -/
structure Ordered (role : Role) (s : System) : Prop where
  setUp : s.worker.SetUp role
  stopped : s.owner = .live ∨ s.owner = .stopping → s.worker.stopped = false

theorem ordered_start (role : Role) (n : ℕ) : Ordered role (.start n) :=
  ⟨⟨rfl, rfl⟩, fun _ => rfl⟩

theorem ordered_step (role : Role) : Preserves (step role) (Ordered role) := by
  intro s e t h hi
  cases step_cases h with
  | post task ho => exact ⟨hi.setUp, hi.stopped⟩
  | test ho => exact ⟨hi.setUp, fun _ => hi.stopped (Or.inl ho)⟩
  | stop ho => exact ⟨hi.setUp, by simp⟩
  | join ho hw => exact ⟨hi.setUp, by simp⟩
  | close ho => exact ⟨hi.setUp, by simp⟩
  | arrive n hn => exact ⟨hi.setUp, hi.stopped⟩
  | work m w hw =>
      refine ⟨Worker.setUp_step hw hi.setUp, ?_⟩
      intro ho
      exact (Worker.stopped_of_step hw).trans (hi.stopped ho)

theorem deadlocked_step (role : Role) :
    Preserves (step role) fun s => Ordered role s ∧ s.Deadlocked := by
  rintro s e t h ⟨hi, hjoin, hstuck⟩
  refine ⟨ordered_step role h hi, ?_⟩
  cases step_cases h with
  | post task ho | test ho | stop ho | close ho => simp [hjoin] at ho
  | join ho hw =>
      have hguard := hi.setUp
      simp only [Worker.SetUp, hw] at hguard
      rcases hstuck with ⟨-, hg⟩ | ⟨hpoll, -⟩
      · simp [hguard.2] at hg
      · simp [hw] at hpoll
  | arrive n hn =>
      refine ⟨hjoin, hstuck.imp id ?_⟩
      rintro ⟨-, -, hnone⟩
      simp [hn] at hnone
  | work m w hw =>
      refine ⟨hjoin, ?_⟩
      rcases hstuck with ⟨hs, hg⟩ | ⟨hpoll, hnone, -⟩
      · left
        exact ⟨(Worker.stopped_of_step hw).trans hs, Worker.guard_of_step hw hs hg⟩
      · have hreadable := Worker.readable_of_step hw hpoll
        simp [hnone] at hreadable

/-- Where the worker has not set `m_running`, it is before `m_io.run`, and
its next steps create the `work` object. -/
theorem reaches_guard {role : Role} {s : System} (hsetUp : s.worker.SetUp role)
    (hrunning : s.worker.running = false) (hstopped : s.worker.stopped = false)
    (hjoin : s.owner = .joining) : ∃ t, Reaches (step role) s t ∧ t.Deadlocked := by
  obtain ⟨owner, ⟨phase, queue, running, guard, stopped⟩, readable, toArrive⟩ := s
  dsimp only at hrunning hstopped hjoin
  subst hrunning hstopped hjoin
  cases phase with
  | setup =>
      cases role with
      | client => exact ⟨_, ⟨[.work .go], rfl⟩, rfl, Or.inl ⟨rfl, rfl⟩⟩
      | server => exact ⟨_, ⟨[.work .go, .work .go], rfl⟩, rfl, Or.inl ⟨rfl, rfl⟩⟩
  | enter =>
      cases role with
      | client => exact ⟨_, Reaches.refl _ _, rfl, Or.inl ⟨rfl, hsetUp.2⟩⟩
      | server => exact absurd hsetUp.1 Bool.false_ne_true
  | _ => exact absurd hsetUp.1 Bool.false_ne_true

theorem deadlock_of_untimely {role : Role} {s t : System} {e : Event} (hi : Ordered role s)
    (he : ¬ Timely s e) (h : step role s e = some t) :
    ∃ u, Reaches (step role) t u ∧ u.Deadlocked := by
  cases step_cases h with
  | test ho =>
      have hrunning : s.worker.running = false := by simpa [Timely] using he
      exact reaches_guard hi.setUp hrunning (hi.stopped (Or.inl ho)) (by simp [hrunning])
  | stop ho => exact ⟨_, Reaches.refl _ _, rfl, Or.inr (not_not.mp he)⟩
  | _ => exact (he trivial).elim

/-- A client that posts one `async_receive`, whose message has come, and is
destroyed while the worker is in the callback. -/
def orderly : List Event :=
  [.work .go, .work .go, .post (.receive ()), .work .go, .arrive, .work .go, .work .go, .test,
    .stop, .work (.finish []), .work .go, .join, .close]

end ZeromqAgent.Shutdown
