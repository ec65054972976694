import ZeromqAgent.ClientServer
import ZeromqAgent.Theory.Transition

/-!
# The worker thread

The thread that the constructors of client and server start, and the
handlers that `async_send`, `async_publish` and `async_receive` post to
the strand. `m_io.run` executes the handlers one at a time in the order
posted; it returns when the io_context is stopped, or when it is out of
work and the `work` object is gone, which lives as long as the thread's
function. The two classes differ in the order of two statements.
-/

namespace ZeromqAgent

/-- A posted handler with what it captures. -/
inductive Task (κ : Type) where
  | send (k : κ)
  | receive (k : κ)
  deriving DecidableEq

/-- Where the worker is: before its first and its second statement, in
`m_io.run` between two handlers, before the send of a handler, in its
`zmq_poll`, before its `zmq_msg_recv`, in its callback, or past its end. -/
inductive Phase (κ : Type) where
  | setup
  | enter
  | idle
  | send (k : κ)
  | poll (k : κ)
  | recv (k : κ)
  | callback (task : Task κ)
  | returned
  deriving DecidableEq

structure Worker (κ : Type) where
  phase : Phase κ
  queue : List (Task κ)
  running : Bool
  guard : Bool
  stopped : Bool

def Phase.current {κ : Type} : Phase κ → List (Task κ)
  | .send k => [.send k]
  | .poll k | .recv k => [.receive k]
  | .callback task => [task]
  | .setup | .enter | .idle | .returned => []

/-- The handlers that have been posted and have not ended. -/
def Worker.tasks {κ : Type} (w : Worker κ) : List (Task κ) := w.phase.current ++ w.queue

/-- `go` is the next statement or call, `fail` lets a `zmq_msg_recv` fail,
and `finish` returns from a callback that has posted some handlers. -/
inductive Move (κ : Type) where
  | go
  | fail
  | finish (posts : List (Task κ))

variable {κ : Type}

def Task.capture : Task κ → κ
  | .send k => k
  | .receive k => k

def Task.phase : Task κ → Phase κ
  | .send k => .send k
  | .receive k => .poll k

namespace Worker

def start (queue : List (Task κ)) : Worker κ where
  phase := .setup
  queue := queue
  running := false
  guard := false
  stopped := false

def post (w : Worker κ) (task : Task κ) : Worker κ := { w with queue := w.queue ++ [task] }

def leave (w : Worker κ) : Worker κ := { w with phase := .returned, guard := false }

/-- The client creates `work` and then sets `m_running`, the server sets
`m_running` first. -/
def setUp (w : Worker κ) : Role → Worker κ
  | .client => { w with phase := .enter, guard := true }
  | .server => { w with phase := .enter, running := true }

def setUpRest (w : Worker κ) : Role → Worker κ
  | .client => { w with phase := .idle, running := true }
  | .server => { w with phase := .idle, guard := true }

/-- `readable` tells whether the socket is, which a `zmq_poll` waits for. -/
def step (role : Role) (readable : Bool) (w : Worker κ) : Move κ → Option (Worker κ)
  | .go =>
      match w.phase with
      | .setup => some (w.setUp role)
      | .enter => some (w.setUpRest role)
      | .idle =>
          if w.stopped then some w.leave
          else
            -- without a handler `run` waits as long as the `work` object is there
            match w.queue with
            | [] => if w.guard then none else some w.leave
            | task :: rest => some { w with phase := task.phase, queue := rest }
      | .send k => some { w with phase := .callback (.send k) }
      | .poll k => if readable then some { w with phase := .recv k } else none
      | .recv k => some { w with phase := .callback (.receive k) }
      | .callback _ => none
      | .returned => none
  | .fail =>
      match w.phase with
      | .recv _ => some { w with phase := .idle }
      | _ => none
  | .finish posts =>
      match w.phase with
      | .callback _ => some { w with phase := .idle, queue := w.queue ++ posts }
      | _ => none

inductive Step (role : Role) (readable : Bool) (w : Worker κ) : Move κ → Worker κ → Prop
  | setup (hp : w.phase = .setup) : Step role readable w .go (w.setUp role)
  | enter (hp : w.phase = .enter) : Step role readable w .go (w.setUpRest role)
  | leave (hp : w.phase = .idle) (hw : w.stopped = true ∨ w.queue = [] ∧ w.guard = false) :
      Step role readable w .go w.leave
  | take (task : Task κ) (rest : List (Task κ)) (hp : w.phase = .idle)
      (hs : w.stopped = false) (hq : w.queue = task :: rest) :
      Step role readable w .go { w with phase := task.phase, queue := rest }
  | send (k : κ) (hp : w.phase = .send k) :
      Step role readable w .go { w with phase := .callback (.send k) }
  | poll (k : κ) (hp : w.phase = .poll k) (hr : readable = true) :
      Step role readable w .go { w with phase := .recv k }
  | recv (k : κ) (hp : w.phase = .recv k) :
      Step role readable w .go { w with phase := .callback (.receive k) }
  | recvFail (k : κ) (hp : w.phase = .recv k) : Step role readable w .fail { w with phase := .idle }
  | finish (task : Task κ) (posts : List (Task κ)) (hp : w.phase = .callback task) :
      Step role readable w (.finish posts) { w with phase := .idle, queue := w.queue ++ posts }

theorem step_cases {role : Role} {readable : Bool} {w v : Worker κ} {m : Move κ}
    (h : w.step role readable m = some v) : Step role readable w m v := by
  cases m with
  | go =>
      cases hp : w.phase with
      | setup =>
          simp only [step, hp, Option.some.injEq] at h
          exact h ▸ .setup hp
      | enter =>
          simp only [step, hp, Option.some.injEq] at h
          exact h ▸ .enter hp
      | idle =>
          simp only [step, hp] at h
          split at h
          · next hs => exact Option.some.inj h ▸ .leave hp (Or.inl hs)
          · next hs =>
              split at h
              · next hq =>
                  obtain ⟨hg, h⟩ := Option.ite_none_left_eq_some.mp h
                  exact Option.some.inj h ▸ .leave hp (Or.inr ⟨hq, by simpa using hg⟩)
              · next task rest hq =>
                  exact Option.some.inj h ▸ .take task rest hp (by simpa using hs) hq
      | send k =>
          simp only [step, hp, Option.some.injEq] at h
          exact h ▸ .send k hp
      | poll k =>
          simp only [step, hp] at h
          obtain ⟨hr, h⟩ := Option.ite_none_right_eq_some.mp h
          exact Option.some.inj h ▸ .poll k hp hr
      | recv k =>
          simp only [step, hp, Option.some.injEq] at h
          exact h ▸ .recv k hp
      | callback task => simp [step, hp] at h
      | returned => simp [step, hp] at h
  | fail =>
      simp only [step] at h
      split at h
      · next k hp => exact Option.some.inj h ▸ .recvFail k hp
      · cases h
  | finish posts =>
      simp only [step] at h
      split at h
      · next task hp => exact Option.some.inj h ▸ .finish task posts hp
      · cases h

/-! ## What no step of the worker changes -/

theorem stopped_of_step {role : Role} {readable : Bool} {w v : Worker κ} {m : Move κ}
    (h : w.step role readable m = some v) : v.stopped = w.stopped := by
  cases step_cases h with
  | setup hp => cases role <;> rfl
  | enter hp => cases role <;> rfl
  | _ => rfl

theorem poll_of_step {role : Role} {readable : Bool} {w v : Worker κ} {m : Move κ} {k : κ}
    (h : w.step role readable m = some v) (hv : v.phase = .poll k) : w.stopped = false := by
  cases step_cases h with
  | take task rest hp hs hq => exact hs
  | setup hp => cases role <;> simp [setUp] at hv
  | enter hp => cases role <;> simp [setUpRest] at hv
  | leave hp hw => simp [leave] at hv
  | _ => simp at hv

theorem guard_of_step {role : Role} {readable : Bool} {w v : Worker κ} {m : Move κ}
    (h : w.step role readable m = some v) (hs : w.stopped = false) (hg : w.guard = true) :
    v.guard = true := by
  cases step_cases h with
  | setup hp => cases role <;> simp [setUp, hg]
  | enter hp => cases role <;> simp [setUpRest, hg]
  | leave hp hw => simp [hs, hg] at hw
  | _ => exact hg

theorem readable_of_step {role : Role} {readable : Bool} {w v : Worker κ} {m : Move κ} {k : κ}
    (h : w.step role readable m = some v) (hw : w.phase = .poll k) : readable = true := by
  cases step_cases h with
  | poll k hp hr => exact hr
  | setup hp | enter hp | leave hp _ | take _ _ hp _ _ | send _ hp | recv _ hp | recvFail _ hp
  | finish _ _ hp => simp [hp] at hw

/-- Which of the two statements have been executed; the `work` object is
there from its statement until the thread's function ends. -/
def SetUp (role : Role) (w : Worker κ) : Prop :=
  match w.phase with
  | .setup => w.running = false ∧ w.guard = false
  | .enter => w.running = (role == .server) ∧ w.guard = (role == .client)
  | .returned => w.running = true ∧ w.guard = false
  | _ => w.running = true ∧ w.guard = true

theorem setUp_step {role : Role} {readable : Bool} {w v : Worker κ} {m : Move κ}
    (h : w.step role readable m = some v) (hw : w.SetUp role) : v.SetUp role := by
  cases step_cases h with
  | setup hp =>
      simp only [SetUp, hp] at hw
      cases role <;> simp [SetUp, setUp, hw]
  | enter hp =>
      simp only [SetUp, hp] at hw
      cases role <;> simp_all [SetUp, setUpRest]
  | leave hp _ =>
      simp only [SetUp, hp] at hw
      exact ⟨hw.1, rfl⟩
  | take task rest hp hs hq =>
      simp only [SetUp, hp] at hw
      cases task <;> exact hw
  | send k hp | poll k hp hr | recv k hp | recvFail k hp | finish task posts hp =>
      simp only [SetUp, hp] at hw
      exact hw

end Worker

end ZeromqAgent
