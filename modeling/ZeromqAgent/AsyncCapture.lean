import ZeromqAgent.Session
import ZeromqAgent.Worker

/-!
# What the posted handlers refer to

`async_send`, `async_publish` and `async_receive` post a closure that
captures the message and the callback by reference and return at once. The
handler runs later, on whatever is at the two addresses then. As long as
the caller keeps the objects it passed until the handlers are done with
them, each handler acts on the arguments of its own call.
-/

namespace ZeromqAgent.AsyncCapture

open Transition

/-- What a closure captures, with the number of the call that posted it. The
closures of the receives capture no message. -/
structure Capture where
  call : ℕ
  message : Option Addr
  callback : Addr
  deriving DecidableEq

/-- A call with its arguments as they were: the bytes of the message, if
they could be read, and the function in the callback. -/
inductive Request where
  | send (bytes : Option Bytes) (function : ℕ)
  | receive (function : ℕ)
  deriving DecidableEq

/-- A handler that has come to its callback: what it found at the addresses
of the message and the callback. A receive whose `zmq_poll` or
`zmq_msg_recv` fails ends without one. -/
inductive Execution where
  | sent (call : ℕ) (bytes : Option (Option Bytes)) (function : Option ℕ)
  | received (call : ℕ) (function : Option ℕ)
  | failed (call : ℕ)
  deriving DecidableEq

/-- The objects live at addresses; where there is none, the caller has
constructed none or has destroyed it. -/
structure System where
  worker : Worker Capture
  heap : Heap
  messages : Addr → Option SendMessage
  callbacks : Addr → Option ℕ
  requests : List Request
  executions : List Execution

/-- The caller constructs, overwrites and destroys buffers, messages and
callbacks, and calls with the addresses of two of them. -/
inductive Event where
  | setBlock (a : Addr) (block : Option Bytes)
  | setMessage (a : Addr) (message : Option SendMessage)
  | setCallback (a : Addr) (function : Option ℕ)
  | asyncSend (message callback : Addr)
  | asyncReceive (callback : Addr)
  | work (fails : Bool)

def System.start (heap : Heap) (messages : Addr → Option SendMessage)
    (callbacks : Addr → Option ℕ) : System :=
  ⟨.start [], heap, messages, callbacks, [], []⟩

def System.post (s : System) (task : Task Capture) (request : Request) : System :=
  { s with worker := s.worker.post task, requests := s.requests ++ [request] }

/-- What `get_data` and `get_size` of the captured message give access to. -/
def System.bytes (s : System) (k : Capture) : Option (Option Bytes) :=
  (k.message.bind s.messages).map fun message => message.bytes s.heap

def System.buffer (s : System) (k : Capture) : Option Addr :=
  (k.message.bind s.messages).map SendMessage.data

/-- A callback that posts handlers does so by calls of its own. -/
def move (w : Worker Capture) : Move Capture :=
  match w.phase with
  | .callback _ => .finish []
  | _ => .go

/-- A `zmq_poll` may find the socket readable at any time, or fail; then the
handler is at its end. -/
def advance (role : Role) (w : Worker Capture) : Bool → Option (Worker Capture)
  | false => w.step role true (move w)
  | true =>
      match w.phase with
      | .poll _ => some { w with phase := .idle }
      | _ => w.step role true .fail

def System.execute (s : System) : Bool → List Execution
  | false =>
      match s.worker.phase with
      | .send k => [.sent k.call (s.bytes k) (s.callbacks k.callback)]
      | .recv k => [.received k.call (s.callbacks k.callback)]
      | _ => []
  | true =>
      match s.worker.phase with
      | .poll k | .recv k => [.failed k.call]
      | _ => []

def step (role : Role) (s : System) : Event → Option System
  | .setBlock a block => some { s with heap := Function.update s.heap a block }
  | .setMessage a message => some { s with messages := Function.update s.messages a message }
  | .setCallback a function => some { s with callbacks := Function.update s.callbacks a function }
  | .asyncSend message callback =>
      match s.messages message, s.callbacks callback with
      | some m, some function =>
          some (s.post (.send ⟨s.requests.length, some message, callback⟩)
            (.send (m.bytes s.heap) function))
      | _, _ => none
  | .asyncReceive callback =>
      (s.callbacks callback).map fun function =>
        s.post (.receive ⟨s.requests.length, none, callback⟩) (.receive function)
  | .work fails => (advance role s.worker fails).map fun w =>
      { s with worker := w, executions := s.executions ++ s.execute fails }

/-- The handlers that have not come to their callback. -/
def waiting (w : Worker Capture) : List (Task Capture) :=
  match w.phase with
  | .callback _ => w.queue
  | _ => w.tasks

/-- The caller leaves a message and its buffer alone until the handler that
refers to them comes to its callback, and a callback until it has returned. -/
def Keeps (s : System) : Event → Prop
  | .setBlock a _ => ∀ task ∈ waiting s.worker, s.buffer task.capture ≠ some a
  | .setMessage a _ => ∀ task ∈ waiting s.worker, task.capture.message ≠ some a
  | .setCallback a _ => ∀ task ∈ s.worker.tasks, task.capture.callback ≠ a
  | _ => True

instance (s : System) (e : Event) : Decidable (Keeps s e) := by
  cases e <;> unfold Keeps <;> infer_instance

def Request.function : Request → ℕ
  | .send _ function | .receive function => function

def Execution.call : Execution → ℕ
  | .sent call _ _ | .received call _ | .failed call => call

/-- The handler invoked the callback of its call, with the message of its
call where it sent one. -/
def Execution.Own (requests : List Request) : Execution → Prop
  | .sent call bytes function => ∃ x f, requests[call]? = some (.send x f) ∧
      bytes = some x ∧ function = some f
  | .received call function => ∃ f, requests[call]? = some (.receive f) ∧ function = some f
  | .failed _ => False

def Execution.Failed (requests : List Request) : Execution → Prop
  | .failed call => ∃ f, requests[call]? = some (.receive f)
  | _ => False

/-- The message of a send is still what was passed. -/
def System.HoldsMessage (s : System) : Task Capture → Prop
  | .send k => ∃ x f, s.requests[k.call]? = some (.send x f) ∧ s.bytes k = some x
  | .receive k => ∃ f, s.requests[k.call]? = some (.receive f)

/-- The callback is still what was passed. -/
def System.HoldsCallback (s : System) (task : Task Capture) : Prop :=
  ∃ r, s.requests[task.capture.call]? = some r ∧ s.callbacks task.capture.callback = some r.function

/-- What the handler of a send puts into the queue of the socket: these bytes
or, when one of its calls fails, nothing. -/
def Hands (strerror : Errno → String) (role : Role) (heap : Heap) (m : SendMessage)
    (bytes : Bytes) : Prop :=
  ∃ entry : Entry, entry.content heap = some bytes ∧ ∀ c send receive,
    let queue := ((Handler.send m).run strerror role c heap send receive).queue
    (queue = c.queue ∨ queue = c.queue ++ [entry]) ∧
      (send = ⟨none, none⟩ → queue = c.queue ++ [entry])

theorem hands_of_bytes (strerror : Errno → String) (role : Role) {heap : Heap} {m : SendMessage}
    {bytes : Bytes} (h : m.bytes heap = some bytes) : Hands strerror role heap m bytes := by
  cases role with
  | client =>
      refine ⟨.borrowed m.data (toSize m.size), Entry.content_of_read h, ?_⟩
      intro c send receive
      simp only [Handler.run, sendWorker_queue]
      constructor
      · split
        · exact Or.inr rfl
        · exact Or.inl rfl
      · rintro rfl
        rfl
  | server =>
      refine ⟨.copied bytes, rfl, ?_⟩
      intro c send receive
      simp only [Handler.run, publishWorker_queue, h, Option.getD_some]
      constructor
      · split
        · exact Or.inr rfl
        · exact Or.inl rfl
      · rintro rfl
        rfl

/-! ## The invariant -/

/-- Every call has one handler, and the handlers are in the order of the
calls. -/
structure Inv (s : System) : Prop where
  order : s.executions.map Execution.call ++
    (waiting s.worker).map (fun task => task.capture.call) = List.range s.requests.length
  own : ∀ x ∈ s.executions, x.Own s.requests ∨ x.Failed s.requests
  message : ∀ task ∈ waiting s.worker, s.HoldsMessage task
  callback : ∀ task ∈ s.worker.tasks, s.HoldsCallback task

variable {role : Role} {s t : System}

theorem inv_start (heap : Heap) (messages : Addr → Option SendMessage)
    (callbacks : Addr → Option ℕ) : Inv (.start heap messages callbacks) := by
  constructor <;> simp [System.start, Worker.start, Worker.tasks, Phase.current, waiting]

theorem getElem?_of_isPrefix {l l' : List Request} {i : ℕ} {r : Request} (hl : l <+: l')
    (h : l[i]? = some r) : l'[i]? = some r := by
  obtain ⟨rest, rfl⟩ := hl
  obtain ⟨hi, -⟩ := List.getElem?_eq_some_iff.mp h
  rwa [List.getElem?_append_left hi]

theorem own_of_isPrefix {l l' : List Request} {x : Execution} (hl : l <+: l')
    (h : x.Own l ∨ x.Failed l) : x.Own l' ∨ x.Failed l' := by
  cases x with
  | sent call bytes function =>
      obtain ⟨x, f, hr, hbytes, hf⟩ := h.resolve_right id
      exact .inl ⟨x, f, getElem?_of_isPrefix hl hr, hbytes, hf⟩
  | received call function =>
      obtain ⟨f, hr, hf⟩ := h.resolve_right id
      exact .inl ⟨f, getElem?_of_isPrefix hl hr, hf⟩
  | failed call =>
      obtain ⟨f, hr⟩ := h.resolve_left id
      exact .inr ⟨f, getElem?_of_isPrefix hl hr⟩

theorem System.HoldsMessage.congr {task : Task Capture} (h : s.HoldsMessage task)
    (hr : s.requests <+: t.requests) (hb : t.bytes task.capture = s.bytes task.capture) :
    t.HoldsMessage task := by
  cases task with
  | send k =>
      obtain ⟨x, f, hrequest, hbytes⟩ := h
      exact ⟨x, f, getElem?_of_isPrefix hr hrequest, hb.trans hbytes⟩
  | receive k =>
      obtain ⟨f, hrequest⟩ := h
      exact ⟨f, getElem?_of_isPrefix hr hrequest⟩

theorem System.HoldsCallback.congr {task : Task Capture} (h : s.HoldsCallback task)
    (hr : s.requests <+: t.requests)
    (hc : t.callbacks task.capture.callback = s.callbacks task.capture.callback) :
    t.HoldsCallback task := by
  obtain ⟨r, hrequest, hf⟩ := h
  exact ⟨r, getElem?_of_isPrefix hr hrequest, hc.trans hf⟩

theorem Inv.frame (hi : Inv s) (hw : t.worker = s.worker) (hr : t.requests = s.requests)
    (hx : t.executions = s.executions)
    (hb : ∀ task ∈ waiting s.worker, t.bytes task.capture = s.bytes task.capture)
    (hc : ∀ task ∈ s.worker.tasks,
      t.callbacks task.capture.callback = s.callbacks task.capture.callback) : Inv t := by
  have hprefix : s.requests <+: t.requests := by simp [hr]
  constructor
  · rw [hw, hr, hx]
    exact hi.order
  · rw [hr, hx]
    exact hi.own
  · rw [hw]
    intro task htask
    exact (hi.message task htask).congr hprefix (hb task htask)
  · rw [hw]
    intro task htask
    exact (hi.callback task htask).congr hprefix (hc task htask)

theorem tasks_post (w : Worker Capture) (task : Task Capture) :
    (w.post task).tasks = w.tasks ++ [task] := by
  simp [Worker.post, Worker.tasks]

theorem waiting_post (w : Worker Capture) (task : Task Capture) :
    waiting (w.post task) = waiting w ++ [task] := by
  unfold waiting
  rw [tasks_post]
  cases hp : w.phase <;> simp [Worker.post, hp]

/-- A new call gets the next number. -/
theorem Inv.post (hi : Inv s) {task : Task Capture} {request : Request}
    (hcall : task.capture.call = s.requests.length)
    (hm : (s.post task request).HoldsMessage task)
    (hc : (s.post task request).HoldsCallback task) : Inv (s.post task request) := by
  have hprefix : s.requests <+: (s.post task request).requests := List.prefix_append _ _
  constructor
  · have horder := hi.order
    simp only [System.post, waiting_post, List.map_append, List.map_singleton, hcall,
      List.length_append, List.length_singleton, List.range_succ, ← horder]
    simp
  · intro x hx
    exact own_of_isPrefix hprefix (hi.own x hx)
  · intro task' htask'
    simp only [System.post, waiting_post] at htask'
    rcases List.mem_append.mp htask' with hold | hnew
    · exact (hi.message task' hold).congr hprefix rfl
    · exact List.mem_singleton.mp hnew ▸ hm
  · intro task' htask'
    simp only [System.post, tasks_post] at htask'
    rcases List.mem_append.mp htask' with hold | hnew
    · exact (hi.callback task' hold).congr hprefix rfl
    · exact List.mem_singleton.mp hnew ▸ hc

theorem advance_cases {w v : Worker Capture} {fails : Bool} (h : advance role w fails = some v) :
    (fails = false ∧ ∃ m, move w = m ∧ w.step role true m = some v) ∨
      fails = true ∧ ∃ k, (w.phase = .poll k ∨ w.phase = .recv k) ∧
        v = { w with phase := .idle } := by
  cases fails with
  | false => exact .inl ⟨rfl, _, rfl, h⟩
  | true =>
      refine .inr ⟨rfl, ?_⟩
      simp only [advance] at h
      split at h
      · next k hp => exact ⟨k, .inl hp, (Option.some.inj h).symm⟩
      · cases Worker.step_cases h with
        | recvFail k hp => exact ⟨k, .inr hp, rfl⟩

/-- What a step of the worker takes, it takes from the first of the
handlers that have not come to their callback. -/
theorem waiting_of_advance {w : Worker Capture} {fails : Bool}
    (h : advance role s.worker fails = some w) :
    ∃ taken, waiting s.worker = taken ++ waiting w ∧
      (s.execute fails).map Execution.call = taken.map fun task => task.capture.call := by
  unfold System.execute waiting Worker.tasks
  obtain ⟨rfl, m, hm, hw⟩ | ⟨rfl, k, hp, rfl⟩ := advance_cases h
  · cases Worker.step_cases hw with
    | setup hp =>
        exact ⟨[], by cases role <;> simp [Worker.setUp, Phase.current, hp], by simp [hp]⟩
    | enter hp =>
        exact ⟨[], by cases role <;> simp [Worker.setUpRest, Phase.current, hp], by simp [hp]⟩
    | leave hp _ => exact ⟨[], by simp [Worker.leave, Phase.current, hp], by simp [hp]⟩
    | take task rest hp _ hq =>
        exact ⟨[], by cases task <;> simp [Phase.current, Task.phase, hp, hq], by simp [hp]⟩
    | send k hp =>
        exact ⟨[.send k], by simp [Phase.current, hp], by simp [hp, Execution.call, Task.capture]⟩
    | poll k hp _ => exact ⟨[], by simp [Phase.current, hp], by simp [hp]⟩
    | recv k hp =>
        exact ⟨[.receive k], by simp [Phase.current, hp],
          by simp [hp, Execution.call, Task.capture]⟩
    | recvFail k hp => simp [move, hp] at hm
    | finish task posts hp =>
        simp only [move, hp, Move.finish.injEq] at hm
        exact ⟨[], by simp [Phase.current, hp, ← hm], by simp [hp]⟩
  · rcases hp with hp | hp <;>
      exact ⟨[.receive k], by simp [Phase.current, hp],
        by simp [hp, Execution.call, Task.capture]⟩

theorem tasks_of_advance {w : Worker Capture} {fails : Bool}
    (h : advance role s.worker fails = some w) : ∀ task ∈ w.tasks, task ∈ s.worker.tasks := by
  unfold Worker.tasks
  obtain ⟨rfl, m, hm, hw⟩ | ⟨rfl, k, -, rfl⟩ := advance_cases h
  · cases Worker.step_cases hw with
    | setup hp => cases role <;> simp [Worker.setUp, Phase.current, hp]
    | enter hp => cases role <;> simp [Worker.setUpRest, Phase.current, hp]
    | leave hp _ => simp [Worker.leave, Phase.current, hp]
    | take task rest hp _ hq => cases task <;> simp [Phase.current, Task.phase, hp, hq]
    | send k hp | poll k hp _ | recv k hp => simp [Phase.current, hp]
    | recvFail k hp => simp [move, hp] at hm
    | finish task posts hp =>
        simp only [move, hp, Move.finish.injEq] at hm
        simp +contextual [Phase.current, hp, ← hm]
  · simp +contextual [Phase.current]

/-- A send in the worker's hand finds its message and its callback. -/
theorem Inv.sent (hi : Inv s) {k : Capture} (hp : s.worker.phase = .send k) :
    (Execution.sent k.call (s.bytes k) (s.callbacks k.callback)).Own s.requests := by
  obtain ⟨x, f, hr, hbytes⟩ := hi.message (.send k)
    (by simp [waiting, Worker.tasks, hp, Phase.current])
  obtain ⟨r, hr', hf⟩ := hi.callback (.send k) (by simp [Worker.tasks, hp, Phase.current])
  obtain rfl : r = .send x f := Option.some.inj (hr'.symm.trans hr)
  exact ⟨x, f, hr, hbytes, hf⟩

theorem Inv.posted (hi : Inv s) {k : Capture}
    (hp : s.worker.phase = .poll k ∨ s.worker.phase = .recv k) :
    ∃ f, s.requests[k.call]? = some (.receive f) := by
  apply hi.message (.receive k)
  rcases hp with hp | hp <;> simp [waiting, Worker.tasks, hp, Phase.current]

theorem Inv.received (hi : Inv s) {k : Capture} (hp : s.worker.phase = .recv k) :
    (Execution.received k.call (s.callbacks k.callback)).Own s.requests := by
  obtain ⟨f, hr⟩ := hi.posted (.inr hp)
  obtain ⟨r, hr', hf⟩ := hi.callback (.receive k) (by simp [Worker.tasks, hp, Phase.current])
  obtain rfl : r = .receive f := Option.some.inj (hr'.symm.trans hr)
  exact ⟨f, hr, hf⟩

theorem Inv.execute (hi : Inv s) (fails : Bool) :
    ∀ x ∈ s.execute fails, x.Own s.requests ∨ x.Failed s.requests := by
  intro x hx
  cases fails with
  | false =>
      simp only [System.execute] at hx
      split at hx
      · next k hp => exact List.mem_singleton.mp hx ▸ .inl (hi.sent hp)
      · next k hp => exact List.mem_singleton.mp hx ▸ .inl (hi.received hp)
      · cases hx
  | true =>
      simp only [System.execute] at hx
      split at hx
      · next k hp => exact List.mem_singleton.mp hx ▸ .inr (hi.posted (.inl hp))
      · next k hp => exact List.mem_singleton.mp hx ▸ .inr (hi.posted (.inr hp))
      · cases hx

theorem Inv.work (hi : Inv s) {w : Worker Capture} {fails : Bool}
    (h : advance role s.worker fails = some w) :
    Inv { s with worker := w, executions := s.executions ++ s.execute fails } := by
  obtain ⟨taken, hwaiting, hcalls⟩ := waiting_of_advance h
  constructor
  · have horder := hi.order
    rw [hwaiting, List.map_append, ← hcalls] at horder
    simpa using horder
  · intro x hx
    rcases List.mem_append.mp hx with hold | hnew
    · exact hi.own x hold
    · exact hi.execute fails x hnew
  · intro task htask
    have hold := hi.message task (hwaiting ▸ List.mem_append_right taken htask)
    exact hold.congr (List.prefix_refl _) rfl
  · intro task htask
    exact (hi.callback task (tasks_of_advance h task htask)).congr (List.prefix_refl _) rfl

theorem inv_step : PreservesUnder (step role) Keeps Inv := by
  intro s e t hkeeps h hi
  cases e with
  | setBlock a block =>
      obtain rfl := Option.some.inj h
      refine hi.frame rfl rfl rfl ?_ fun _ _ => rfl
      intro task htask
      have hne := hkeeps task htask
      cases hm : task.capture.message.bind s.messages with
      | none => simp [System.bytes, hm]
      | some m =>
          have hdata : m.data ≠ a := by simpa [System.buffer, hm] using hne
          simp only [System.bytes, hm, Option.map_some, SendMessage.bytes]
          rw [Storage.read_congr (Function.update_of_ne hdata _ _)]
  | setMessage a message =>
      obtain rfl := Option.some.inj h
      refine hi.frame rfl rfl rfl ?_ fun _ _ => rfl
      intro task htask
      have hne := hkeeps task htask
      cases hm : task.capture.message with
      | none => simp [System.bytes, hm]
      | some b =>
          have hb : b ≠ a := by simpa [hm] using hne
          simp [System.bytes, hm, Function.update_of_ne hb]
  | setCallback a function =>
      obtain rfl := Option.some.inj h
      refine hi.frame rfl rfl rfl (fun _ _ => rfl) ?_
      intro task htask
      exact Function.update_of_ne (hkeeps task htask) _ _
  | asyncSend message callback =>
      simp only [step] at h
      split at h
      · next m f hm hf =>
          obtain rfl := Option.some.inj h
          refine hi.post rfl ⟨m.bytes s.heap, f, ?_, ?_⟩ ⟨.send (m.bytes s.heap) f, ?_, hf⟩
          · simp [System.post]
          · simp [System.post, System.bytes, hm]
          · simp [System.post, Task.capture]
      · cases h
  | asyncReceive callback =>
      obtain ⟨f, hf, rfl⟩ := Option.map_eq_some_iff.mp h
      refine hi.post rfl ⟨f, ?_⟩ ⟨.receive f, ?_, hf⟩
      · simp [System.post]
      · simp [System.post, Task.capture]
  | work fails =>
      obtain ⟨w, hw, rfl⟩ := Option.map_eq_some_iff.mp h
      exact hi.work hw

/-- The next handler to come to its callback is that of the next call. -/
theorem Inv.call_eq (hi : Inv s) {task : Task Capture} {rest : List (Task Capture)}
    (h : waiting s.worker = task :: rest) : task.capture.call = s.executions.length := by
  have horder := congrArg (·[s.executions.length]?) hi.order
  simp only [h, List.map_cons] at horder
  rw [List.getElem?_append_right (by simp)] at horder
  simp only [List.length_map, Nat.sub_self, List.getElem?_cons_zero] at horder
  obtain ⟨hlt, hget⟩ := List.getElem?_eq_some_iff.mp horder.symm
  rw [List.getElem_range] at hget
  exact hget.symm

/-- Whether a handler ends without its callback is decided in one step. -/
theorem failed_step {e : Event} (h : step role s e = some t) :
    (∀ call, .failed call ∉ t.executions) ↔
      (∀ call, .failed call ∉ s.executions) ∧ e ≠ .work true := by
  cases e with
  | setBlock a block | setMessage a message | setCallback a function =>
      obtain rfl := Option.some.inj h
      exact (and_iff_left nofun).symm
  | asyncSend message callback =>
      simp only [step] at h
      split at h
      · exact Option.some.inj h ▸ (and_iff_left nofun).symm
      · cases h
  | asyncReceive callback =>
      obtain ⟨f, -, rfl⟩ := Option.map_eq_some_iff.mp h
      exact (and_iff_left nofun).symm
  | work fails =>
      obtain ⟨w, hw, rfl⟩ := Option.map_eq_some_iff.mp h
      have hnew : (∀ call, .failed call ∉ s.execute fails) ↔ fails = false := by
        obtain ⟨rfl, -⟩ | ⟨rfl, k, hp, -⟩ := advance_cases hw
        · cases hp : s.worker.phase <;> simp [System.execute, hp]
        · rcases hp with hp | hp <;> simp [System.execute, hp]
      simp only [List.mem_append, not_or, forall_and, hnew, ne_eq, Event.work.injEq,
        Bool.not_eq_true]

/-- All handlers that came to an end of their own invoked their callbacks
exactly when no call of a receive failed. -/
theorem own_iff {s₀ : System} {es : List Event} (hstart : s₀.executions = [])
    (hi : Inv t) (hr : run (step role) s₀ es = some t) :
    (∀ x ∈ t.executions, x.Own t.requests) ↔ .work true ∉ es := by
  have hfailed : (∀ call, .failed call ∉ t.executions) ↔ .work true ∉ es := by
    refine run_history (P := fun es t => (∀ call, .failed call ∉ t.executions) ↔ .work true ∉ es)
      hr (by simp [hstart]) ?_
    intro es e s t hs h
    rw [failed_step h, hs, List.mem_append, not_or, List.mem_singleton, ne_comm]
  rw [← hfailed]
  constructor
  · intro hown call hmem
    exact hown _ hmem
  · intro hnone x hx
    refine (hi.own x hx).resolve_right ?_
    cases x with
    | failed call => exact (hnone call hx).elim
    | _ => exact id

/-- The handler that is about to send finds the message of its call. -/
theorem Inv.hands (hi : Inv t) (strerror : Errno → String) (role : Role) {k : Capture}
    (hp : t.worker.phase = .send k) :
    ∃ m x f, t.requests[k.call]? = some (.send x f) ∧ k.message.bind t.messages = some m ∧
      m.bytes t.heap = x ∧ ∀ bytes ∈ x, Hands strerror role t.heap m bytes := by
  obtain ⟨x, f, hrequest, hbytes⟩ := hi.message (.send k)
    (by simp [waiting, Worker.tasks, hp, Phase.current])
  obtain ⟨m, hm, hbytes⟩ := Option.map_eq_some_iff.mp hbytes
  refine ⟨m, x, f, hrequest, hm, hbytes, ?_⟩
  intro bytes hx
  exact hands_of_bytes strerror role (hbytes.trans hx)

/-- While the caller keeps what it passed, the handlers of the calls come to
their ends in the order of the calls, each once, unless they still wait. A
handler that sends hands the bytes of its own call to the socket; each
handler invokes the callback of its own call, all of them exactly when no
call of a receive fails, and the callback stays until the handler has
ended. -/
theorem own_arguments {heap : Heap} {messages : Addr → Option SendMessage}
    {callbacks : Addr → Option ℕ} {es : List Event}
    (hm : Meets (step role) Keeps (.start heap messages callbacks) es)
    (hr : run (step role) (.start heap messages callbacks) es = some t) :
    t.executions.map Execution.call = List.range t.executions.length ∧
      t.executions.length + (waiting t.worker).length = t.requests.length ∧
      (∀ x ∈ t.executions, x.Own t.requests ∨ x.Failed t.requests) ∧
      ((∀ x ∈ t.executions, x.Own t.requests) ↔ .work true ∉ es) ∧
      (∀ strerror k, t.worker.phase = .send k → ∃ m x f,
        t.requests[k.call]? = some (.send x f) ∧ k.message.bind t.messages = some m ∧
          m.bytes t.heap = x ∧ ∀ bytes ∈ x, Hands strerror role t.heap m bytes) ∧
      ∀ task ∈ t.worker.phase.current, t.HoldsCallback task := by
  have hi := inv_step.run hm hr (inv_start heap messages callbacks)
  have hlength := congrArg List.length hi.order
  simp only [List.length_append, List.length_map, List.length_range] at hlength
  refine ⟨?_, hlength, hi.own, own_iff rfl hi hr, ?_, ?_⟩
  -- the handlers that came to their callbacks are those of the first calls
  · have htake := congrArg (List.take t.executions.length) hi.order
    rw [List.take_left' (List.length_map _), List.take_range] at htake
    rw [htake]
    congr 1
    omega
  · intro strerror k hp
    exact hi.hands strerror role hp
  · intro task htask
    exact hi.callback task (List.mem_append_left _ htask)

def empty : System := .start (fun _ => none) (fun _ => none) fun _ => none

/-- The message of a send goes in the callback, each callback after its handler. -/
def kept : List Event :=
  [.setBlock 1 (some [7]), .setMessage 2 (some ⟨1, 1, true⟩), .setCallback 3 (some 0),
    .setCallback 4 (some 1), .asyncSend 2 3, .asyncReceive 4] ++ List.replicate 4 (.work false) ++
      [.setMessage 2 none, .work false, .setCallback 3 none] ++ List.replicate 4 (.work false) ++
        [.setCallback 4 none]

theorem own_arguments_kept : ∃ t, run (step .client) empty kept = some t ∧
    t.executions = [.sent 0 (some (some [7])) (some 0), .received 1 (some 1)] ∧
      ∀ x ∈ t.executions, x.Own t.requests := by
  refine ⟨_, rfl, rfl, ?_⟩
  have hkeeps : Meets (step .client) Keeps empty kept := by decide
  exact (own_arguments hkeeps rfl).2.2.2.1.mpr (by simp [kept])

/-- The loop of an asynchronous client: the message and the callback of the
first iteration are destroyed when the call has returned, those of the
second are at the same addresses, and only then does the worker start. -/
def reused : List Event :=
  [.setBlock 1 (some [7]), .setMessage 2 (some ⟨1, 1, true⟩), .setCallback 3 (some 0),
    .asyncSend 2 3, .setCallback 3 none, .setMessage 2 none, .setBlock 1 none,
    .setBlock 1 (some [8]), .setMessage 2 (some ⟨1, 1, true⟩), .setCallback 3 (some 1),
    .asyncSend 2 3] ++ List.replicate 4 (.work false)

theorem own_arguments_fails : ¬ ∀ (role : Role) (heap : Heap)
    (messages : Addr → Option SendMessage) (callbacks : Addr → Option ℕ) (es : List Event)
    (t : System), run (step role) (.start heap messages callbacks) es = some t →
      ∀ x ∈ t.executions, x.Own t.requests := by
  intro h
  obtain ⟨t, ht, hx, hq⟩ : ∃ t, run (step .client) empty reused = some t ∧
      t.executions = [.sent 0 (some (some [8])) (some 1)] ∧
      t.requests = [.send (some [7]) 0, .send (some [8]) 1] := ⟨_, rfl, rfl, rfl⟩
  have hown := h .client _ _ _ reused t ht (.sent 0 (some (some [8])) (some 1)) (by simp [hx])
  obtain ⟨x, f, hrequest, hbytes, -⟩ := hown
  simp only [hq, List.getElem?_cons_zero, Option.some.injEq, Request.send.injEq] at hrequest hbytes
  simp [← hbytes] at hrequest

end ZeromqAgent.AsyncCapture
