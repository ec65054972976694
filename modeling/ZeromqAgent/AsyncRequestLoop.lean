import ZeromqAgent.AsyncCapture
import ZeromqAgent.RequestLoop

/-!
# The asynchronous request loop

`req_rep_client_async` of the test program: each iteration calls
`async_send` with its message and with a callback that receives and prints.
The thread of the loop and the worker take turns in any order. As long as
the messages and the callbacks last until their handlers are done with
them, the handlers play the same rounds on the REQ socket as the
iterations of the synchronous loop do.
-/

namespace ZeromqAgent.AsyncRequestLoop

open Transition Turns RequestLoop

/-- Where an iteration has its message and the temporary for its callback. -/
structure Locals where
  object : Addr
  callback : Addr

/-- `todo` has the statements that the loop has yet to execute, and `status`
is that of the last send. -/
structure State where
  todo : List AsyncCapture.Event
  system : AsyncCapture.System
  client : Requester
  status : Status
  reports : List (Outcome RequestLoop.Request)

inductive Action where
  | main
  | work
  deriving DecidableEq

/-- The message is constructed (`ofString_message`) and the temporary from
the closure; the temporary is destroyed after the call, the message at the
end of the iteration. -/
def statements (l : Locals) (it : Iteration) (i : ℕ) : List AsyncCapture.Event :=
  [.setBlock it.block (some (it.message ++ [it.last])),
    .setMessage l.object (some ⟨it.message.length, it.block, true⟩),
    .setCallback l.callback (some i),
    .asyncSend l.object l.callback,
    .setCallback l.callback none,
    .setBlock it.block none,
    .setMessage l.object none]

variable (strerror : Errno → String) (locals : ℕ → Locals) (its : List Iteration)

/-- The iterations from number `i` on. -/
def program (i : ℕ) (its : List Iteration) : List AsyncCapture.Event :=
  (its.zipIdx i).flatMap fun p => statements (locals p.2) p.1 p.2

def State.start (c : Impl) (heap : Heap) (messages : Addr → Option SendMessage)
    (callbacks : Addr → Option ℕ) : State where
  todo := program locals 0 its
  system := .start heap messages callbacks
  client := ⟨c, none⟩
  status := .init
  reports := []

/-- What the handlers do with the client: the send, and the receive in the
callback. There is no step where a handler finds no message or callback. -/
def State.handle (s : State) : Option State :=
  match s.system.worker.phase with
  | .send k =>
      match its[k.call]?, k.message.bind s.system.messages with
      | some it, some m =>
          let (status, client) :=
            s.client.send strerror k.call s.system.heap m .dontwait it.send
          some { s with status := status, client := client }
      | _, _ => none
  | .callback (.send k) =>
      match its[k.call]?, s.system.callbacks k.callback with
      | some it, some i =>
          if it.receive.placed s.system.heap then
            match s.client.receive strerror s.system.heap it.receive with
            | (.error _, _, _) => none
            | (.ok reply, client, heap) =>
                let request := (i, its[i]?.map Iteration.message)
                some { s with
                  system := { s.system with heap := heap }
                  client := client
                  reports := s.reports ++ [⟨request, s.status.error = .ok, reply⟩] }
          else none
      | _, _ => none
  | _ => some s

def step (s : State) : Action → Option State
  | .main =>
      match s.todo with
      | [] => none
      | e :: rest =>
          (AsyncCapture.step .client s.system e).map fun system =>
            { s with todo := rest, system := system }
  | .work =>
      (s.handle strerror its).bind fun s =>
        (AsyncCapture.step .client s.system (.work false)).map fun system =>
          { s with system := system }

/-- The loop does not destroy or reuse what a handler still refers to. -/
def Keeps (s : State) : Action → Prop
  | .main => ∀ e ∈ s.todo.head?, AsyncCapture.Keeps s.system e
  | .work => True

instance (s : State) (a : Action) : Decidable (Keeps s a) := by
  cases a <;> unfold Keeps <;> infer_instance

/-- The loop, started if the client could connect. -/
def reqRepClientAsync (junkSocket : Handle) (junkAllocated : Bool) (endPoint : String)
    (calls : ConnectCalls) (heap : Heap) (messages : Addr → Option SendMessage)
    (callbacks : Addr → Option ℕ) : Option State :=
  match ClientImpl.connect strerror (.start .request junkSocket junkAllocated) endPoint calls with
  | (.notOk, _) => none
  | (.ok, c) => some (.start locals its c heap messages callbacks)

/-! ## What the loop posts -/

def requests (i : ℕ) (its : List Iteration) : List AsyncCapture.Request :=
  (its.zipIdx i).map fun p => .send (some p.1.message) p.2

theorem getElem?_requests {n : ℕ} {r : AsyncCapture.Request}
    (h : (requests 0 its)[n]? = some r) :
    ∃ it, its[n]? = some it ∧ r = .send (some it.message) n := by
  simp only [requests, List.getElem?_map, List.getElem?_zipIdx, Option.map_map] at h
  obtain ⟨it, hit, rfl⟩ := Option.map_eq_some_iff.mp h
  exact ⟨it, hit, by simp⟩

theorem bytes_construct (heap : Heap) (it : Iteration) :
    SendMessage.bytes ⟨it.message.length, it.block, true⟩
      (Function.update heap it.block (some (it.message ++ [it.last]))) = some it.message :=
  (SendMessage.bytes_of_ofString (ofString_message heap it) (length_message it)).2.2

variable {strerror locals its} {s t : AsyncCapture.System} {role : Role}

theorem run_statements (role : Role) (s : AsyncCapture.System) (l : Locals) (it : Iteration)
    (i : ℕ) :
    ∃ t, run (AsyncCapture.step role) s (statements l it i) = some t ∧
      t.requests = s.requests ++ [.send (some it.message) i] := by
  simp [run, AsyncCapture.step, AsyncCapture.System.post, statements, bytes_construct]

theorem run_program (s : AsyncCapture.System) (i : ℕ) :
    ∃ t, run (AsyncCapture.step role) s (program locals i its) = some t ∧
      t.requests = s.requests ++ requests i its := by
  induction its generalizing s i with
  | nil => exact ⟨s, rfl, (List.append_nil _).symm⟩
  | cons it its ih =>
      obtain ⟨u, hu, hrequest⟩ := run_statements role s (locals i) it i
      obtain ⟨t, ht, hrest⟩ := ih u (i + 1)
      refine ⟨t, ?_, ?_⟩
      · simp only [program, List.zipIdx_cons, List.flatMap_cons, run_append, hu]
        exact ht
      · simp [hrest, hrequest, requests]

/-- The same but for the worker and what it has executed. -/
structure Agree (s t : AsyncCapture.System) : Prop where
  heap : t.heap = s.heap
  messages : t.messages = s.messages
  callbacks : t.callbacks = s.callbacks
  requests : t.requests = s.requests

theorem agree_of_work {fails : Bool} (h : AsyncCapture.step role s (.work fails) = some t) :
    Agree s t := by
  obtain ⟨w, hw, rfl⟩ := Option.map_eq_some_iff.mp h
  exact ⟨rfl, rfl, rfl, rfl⟩

/-- A statement of the loop does not depend on the worker. -/
theorem Agree.step {s' : AsyncCapture.System} {e : AsyncCapture.Event}
    (he : ∀ fails, e ≠ .work fails) (hs : Agree s s')
    (h : AsyncCapture.step role s e = some t) :
    ∃ t', AsyncCapture.step role s' e = some t' ∧ Agree t t' := by
  obtain ⟨hheap, hmessages, hcallbacks, hrequests⟩ := hs
  cases e with
  | setBlock a block =>
      obtain rfl := Option.some.inj h
      exact ⟨_, rfl, by simp [hheap], hmessages, hcallbacks, hrequests⟩
  | setMessage a message =>
      obtain rfl := Option.some.inj h
      exact ⟨_, rfl, hheap, by simp [hmessages], hcallbacks, hrequests⟩
  | setCallback a function =>
      obtain rfl := Option.some.inj h
      exact ⟨_, rfl, hheap, hmessages, by simp [hcallbacks], hrequests⟩
  | asyncSend message callback =>
      simp only [AsyncCapture.step, hheap, hmessages, hcallbacks] at h ⊢
      split at h
      · obtain rfl := Option.some.inj h
        exact ⟨_, rfl, hheap, hmessages, hcallbacks, by simp [AsyncCapture.System.post, hrequests]⟩
      · cases h
  | asyncReceive callback =>
      obtain ⟨f, hf, rfl⟩ := Option.map_eq_some_iff.mp h
      refine ⟨_, Option.map_eq_some_iff.mpr ⟨f, by rwa [hcallbacks], rfl⟩, hheap, hmessages,
        hcallbacks, ?_⟩
      simp [AsyncCapture.System.post, hrequests]
  | work fails => exact (he fails rfl).elim

theorem Agree.run {s' : AsyncCapture.System} {es : List AsyncCapture.Event}
    (he : ∀ e ∈ es, ∀ fails, e ≠ .work fails) (hs : Agree s s')
    (h : run (AsyncCapture.step role) s es = some t) :
    ∃ t', run (AsyncCapture.step role) s' es = some t' ∧ Agree t t' :=
  exists_run_of_follows (fun e hmem _ _ _ hagree => hagree.step (he e hmem)) hs h

/-- A statement leaves the worker where it is and takes back no request. -/
theorem frame_of_step {e : AsyncCapture.Event} (he : ∀ fails, e ≠ .work fails)
    (h : AsyncCapture.step role s e = some t) :
    t.worker.phase = s.worker.phase ∧ t.executions = s.executions ∧
      s.requests <+: t.requests := by
  cases e with
  | setBlock a block | setMessage a message | setCallback a function =>
      obtain rfl := Option.some.inj h
      exact ⟨rfl, rfl, List.prefix_refl _⟩
  | asyncSend message callback =>
      simp only [AsyncCapture.step] at h
      split at h
      · obtain rfl := Option.some.inj h
        exact ⟨rfl, rfl, List.prefix_append _ _⟩
      · cases h
  | asyncReceive callback =>
      obtain ⟨f, hf, rfl⟩ := Option.map_eq_some_iff.mp h
      exact ⟨rfl, rfl, List.prefix_append _ _⟩
  | work fails => exact (he fails rfl).elim

theorem requests_prefix_of_run {es : List AsyncCapture.Event}
    (he : ∀ e ∈ es, ∀ fails, e ≠ .work fails)
    (h : run (AsyncCapture.step role) s es = some t) : s.requests <+: t.requests := by
  have hstep : PreservesUnder (AsyncCapture.step role) (fun _ e => ∀ fails, e ≠ .work fails)
      fun u => s.requests <+: u.requests := by
    intro u e v he hv hprefix
    exact hprefix.trans (frame_of_step he hv).2.2
  exact hstep.run (meets_of_forall_mem (fun e hmem _ => he e hmem) s) h (List.prefix_refl _)

theorem program_no_work {i : ℕ} : ∀ e ∈ program locals i its, ∀ fails, e ≠ .work fails := by
  intro e he fails
  obtain ⟨p, -, he⟩ := List.mem_flatMap.mp he
  rintro rfl
  simp [statements] at he

/-! ## The rounds of the handlers -/

variable {strerror : Errno → String}

theorem rounds_take {n : ℕ} {it : Iteration} (h : its[n]? = some it) :
    rounds (its.take (n + 1)) = rounds (its.take n) ++ [it.round n] := by
  obtain ⟨hlt, -⟩ := List.getElem?_eq_some_iff.mp h
  rw [List.take_add_one, h, Option.toList_some, rounds_concat,
    List.length_take_of_le (Nat.le_of_lt hlt)]

/-- The handlers that have ended have played the rounds of the first
iterations, and one that has come to its callback has sent in its round. -/
def State.Played (its : List Iteration) (s : State) : Prop :=
  let n := s.reports.length
  let before := after none (rounds (its.take n))
  s.reports = outcomes none (rounds (its.take n)) ∧
    match s.system.worker.phase with
    | .callback (.send k) =>
        k.call = n ∧ s.system.executions.length = n + 1 ∧
          ∃ it, its[n]? = some it ∧
            let taken := Turns.send before (n, some it.message) it.send.errno.isSome
            decide (s.status.error = .ok) = taken.1 ∧ s.client.outstanding = taken.2
    | .callback (.receive _) => False
    | _ => s.system.executions.length = n ∧ s.client.outstanding = before

structure Inv (its : List Iteration) (s : State) : Prop where
  arguments : AsyncCapture.Inv s.system
  program : ∃ u, run (AsyncCapture.step .client) s.system s.todo = some u ∧
    u.requests = requests 0 its
  statements : ∀ e ∈ s.todo, ∀ fails, e ≠ .work fails
  played : s.Played its

theorem inv_start (c : Impl) (heap : Heap) (messages : Addr → Option SendMessage)
    (callbacks : Addr → Option ℕ) : Inv its (.start locals its c heap messages callbacks) where
  arguments := AsyncCapture.inv_start heap messages callbacks
  program := run_program (.start heap messages callbacks) 0
  statements := program_no_work
  played := ⟨rfl, rfl, rfl⟩

section

variable {s t : State}

theorem Inv.request (hi : Inv its s) {n : ℕ} {r : AsyncCapture.Request}
    (h : s.system.requests[n]? = some r) :
    ∃ it, its[n]? = some it ∧ r = .send (some it.message) n := by
  obtain ⟨u, hu, hrequests⟩ := hi.program
  have hprefix := requests_prefix_of_run hi.statements hu
  rw [hrequests] at hprefix
  exact getElem?_requests its (AsyncCapture.getElem?_of_isPrefix hprefix h)

theorem Inv.main (hi : Inv its s) (hkeeps : Keeps s .main)
    (h : step strerror its s .main = some t) : Inv its t := by
  obtain ⟨u, hu, hrequests⟩ := hi.program
  cases htodo : s.todo with
  | nil => simp [step, htodo] at h
  | cons e rest =>
      simp only [step, htodo] at h
      obtain ⟨system, hsystem, rfl⟩ := Option.map_eq_some_iff.mp h
      have hstatements := hi.statements
      rw [htodo] at hu hstatements
      obtain ⟨hphase, hexecutions, -⟩ := frame_of_step (hstatements e (by simp)) hsystem
      have hplayed := hi.played
      constructor
      · exact AsyncCapture.inv_step (hkeeps e (by simp [htodo])) hsystem hi.arguments
      · obtain ⟨v, hv, hrun⟩ := run_cons_eq_some.mp hu
        obtain rfl : system = v := Option.some.inj (hsystem.symm.trans hv)
        exact ⟨u, hrun, hrequests⟩
      · exact fun e he => hstatements e (by simp [he])
      · simpa only [State.Played, hphase, hexecutions] using hplayed

theorem handle_frame (h : s.handle strerror its = some t) :
    t.system = s.system ∧ t.todo = s.todo := by
  unfold State.handle at h
  split at h
  · split at h
    · obtain rfl := Option.some.inj h
      exact ⟨rfl, rfl⟩
    · cases h
  · split at h
    · obtain ⟨hplaced, h⟩ := Option.ite_none_right_eq_some.mp h
      split at h
      · cases h
      · next reply client heap hreceive =>
          obtain rfl := Option.some.inj h
          obtain rfl := (receive_round strerror hreceive).2.2 hplaced
          exact ⟨rfl, rfl⟩
    · cases h
  · obtain rfl := Option.some.inj h
    exact ⟨rfl, rfl⟩

theorem Inv.sending (hi : Inv its s) {k : AsyncCapture.Capture}
    (hp : s.system.worker.phase = .send k) :
    k.call = s.reports.length ∧ ∃ it m, its[s.reports.length]? = some it ∧
      k.message.bind s.system.messages = some m ∧
        m.bytes s.system.heap = some it.message := by
  have hwaiting : AsyncCapture.waiting s.system.worker = .send k :: s.system.worker.queue := by
    simp [AsyncCapture.waiting, Worker.tasks, Phase.current, hp]
  have hplayed := hi.played.2
  simp only [hp] at hplayed
  have hcall : k.call = s.reports.length := (hi.arguments.call_eq hwaiting).trans hplayed.1
  refine ⟨hcall, ?_⟩
  obtain ⟨x, f, hrequest, hbytes⟩ := hi.arguments.message (.send k) (by simp [hwaiting])
  obtain ⟨it, hit, heq⟩ := hi.request hrequest
  obtain ⟨rfl, -⟩ := AsyncCapture.Request.send.inj heq
  obtain ⟨m, hm, hbytes⟩ := Option.map_eq_some_iff.mp hbytes
  exact ⟨it, m, hcall ▸ hit, hm, hbytes⟩

theorem Inv.calling (hi : Inv its s) {k : AsyncCapture.Capture}
    (hp : s.system.worker.phase = .callback (.send k)) :
    s.system.callbacks k.callback = some k.call := by
  obtain ⟨r, hrequest, hfunction⟩ := hi.arguments.callback (.send k)
    (by simp [Worker.tasks, Phase.current, hp])
  obtain ⟨it, -, rfl⟩ := hi.request hrequest
  exact hfunction

theorem Inv.not_receiving (hi : Inv its s) (k : AsyncCapture.Capture) :
    s.system.worker.phase ≠ .recv k := by
  intro hp
  obtain ⟨f, hrequest⟩ := hi.arguments.message (.receive k)
    (by simp [AsyncCapture.waiting, Worker.tasks, Phase.current, hp])
  obtain ⟨it, -, heq⟩ := hi.request hrequest
  cases heq

/-- The handler sends the message of its iteration. -/
theorem Inv.played_send (hi : Inv its s) {k : AsyncCapture.Capture}
    (hp : s.system.worker.phase = .send k) {u : State}
    (hu : s.handle strerror its = some u) {system : AsyncCapture.System}
    (hphase : system.worker.phase = .callback (.send k))
    (hexecutions : system.executions.length = s.system.executions.length + 1) :
    State.Played its { u with system := system } := by
  obtain ⟨hcall, it, m, hit, hm, hbytes⟩ := hi.sending hp
  obtain ⟨hreports, hplayed⟩ := hi.played
  simp only [hp] at hplayed
  simp only [State.handle, hp, hcall, hit, hm] at hu
  obtain rfl := Option.some.inj hu
  refine ⟨hreports, ?_⟩
  simp only [hphase]
  refine ⟨hcall, by rw [hexecutions, hplayed.1], it, hit, ?_⟩
  have hsend := send_round strerror s.client s.reports.length s.system.heap m .dontwait it.send
  rw [hplayed.2, hbytes] at hsend
  exact hsend

/-- The callback of an iteration receives in the round of that iteration. -/
theorem Inv.played_callback (hi : Inv its s) {k : AsyncCapture.Capture}
    (hp : s.system.worker.phase = .callback (.send k)) {u : State}
    (hu : s.handle strerror its = some u) {system : AsyncCapture.System}
    (hphase : system.worker.phase = .idle)
    (hexecutions : system.executions.length = s.system.executions.length) :
    State.Played its { u with system := system } := by
  have hcallback := hi.calling hp
  obtain ⟨hreports, hplayed⟩ := hi.played
  simp only [hp] at hplayed
  obtain ⟨hcall, hlength, it, hit, haccepted, houtstanding⟩ := hplayed
  rw [hcall] at hcallback
  simp only [State.handle, hp, hcall, hit, hcallback] at hu
  obtain ⟨-, hu⟩ := Option.ite_none_right_eq_some.mp hu
  split at hu
  · cases hu
  next reply client heap hreceive =>
  obtain rfl := Option.some.inj hu
  obtain ⟨hreply, hafter, -⟩ := receive_round strerror hreceive
  rw [houtstanding] at hreply hafter
  simp only [State.Played, List.length_append, List.length_singleton, hphase,
    rounds_take hit, outcomes_concat, after_concat]
  refine ⟨?_, by rw [hexecutions, hlength], hafter⟩
  rw [← hreports, hreply, haccepted]
  rfl

theorem Inv.played_work (hi : Inv its s) {u : State} (hu : s.handle strerror its = some u)
    {w : Worker AsyncCapture.Capture}
    (hw : s.system.worker.step .client true (AsyncCapture.move s.system.worker) = some w) :
    State.Played its { u with
      system := { s.system with
        worker := w
        executions := s.system.executions ++ s.system.execute false } } := by
  generalize hm : AsyncCapture.move s.system.worker = m at hw
  have hplayed := hi.played
  -- outside the two places where a handler acts, nothing but the phase changes
  have hother : s.handle strerror its = some s → u = s := fun h => Option.some.inj (hu.symm.trans h)
  cases Worker.step_cases hw with
  | send k hp => exact hi.played_send hp hu rfl (by simp [AsyncCapture.System.execute, hp])
  | finish task posts hp =>
      cases task with
      | send k => exact hi.played_callback hp hu rfl (by simp [AsyncCapture.System.execute, hp])
      | receive k => simp [State.Played, hp] at hplayed
  | recv k hp | recvFail k hp => exact (hi.not_receiving k hp).elim
  | setup hp =>
      obtain rfl := hother (by simp [State.handle, hp])
      simpa [State.Played, Worker.setUp, AsyncCapture.System.execute, hp] using hplayed
  | enter hp =>
      obtain rfl := hother (by simp [State.handle, hp])
      simpa [State.Played, Worker.setUpRest, AsyncCapture.System.execute, hp] using hplayed
  | leave hp _ =>
      obtain rfl := hother (by simp [State.handle, hp])
      simpa [State.Played, Worker.leave, AsyncCapture.System.execute, hp] using hplayed
  | take task rest hp _ _ =>
      obtain rfl := hother (by simp [State.handle, hp])
      cases task <;> simpa [State.Played, Task.phase, AsyncCapture.System.execute, hp] using hplayed
  | poll k hp _ =>
      obtain rfl := hother (by simp [State.handle, hp])
      simpa [State.Played, AsyncCapture.System.execute, hp] using hplayed

theorem Inv.work (hi : Inv its s) (h : step strerror its s .work = some t) : Inv its t := by
  obtain ⟨u, hu, h⟩ := Option.bind_eq_some_iff.mp h
  obtain ⟨system, hsystem, rfl⟩ := Option.map_eq_some_iff.mp h
  obtain ⟨hframe, htodo⟩ := handle_frame hu
  rw [hframe] at hsystem
  constructor
  · exact AsyncCapture.inv_step (a := .work false) trivial hsystem hi.arguments
  · obtain ⟨v, hv, hrequests⟩ := hi.program
    obtain ⟨v', hv', hagree⟩ := (agree_of_work hsystem).run hi.statements hv
    exact ⟨v', htodo ▸ hv', hagree.requests.trans hrequests⟩
  · exact htodo ▸ hi.statements
  · obtain ⟨w, hw, rfl⟩ := Option.map_eq_some_iff.mp hsystem
    exact hi.played_work hu hw

theorem inv_step : PreservesUnder (step strerror its) Keeps (Inv its) := by
  intro s a t hkeeps h hi
  cases a with
  | main => exact hi.main hkeeps h
  | work => exact hi.work h

/-- The handlers that have ended got the replies to their own messages
exactly if the iterations that posted them are clear of each other. -/
theorem own_of_run {c : Impl} {heap : Heap} {messages : Addr → Option SendMessage}
    {callbacks : Addr → Option ℕ} {as : List Action}
    (hm : Meets (step strerror its) Keeps (.start locals its c heap messages callbacks) as)
    (hr : run (step strerror its) (.start locals its c heap messages callbacks) as = some t) :
    (∀ o ∈ t.reports, o.Own) ↔ (its.take t.reports.length).Pairwise Iteration.Clear := by
  have hi := inv_step.run hm hr (inv_start c heap messages callbacks)
  rw [← pairwise_rounds, ← forall_own_iff, ← hi.played.1]

end

/-- In both loops every reply that is printed answers the message of its
iteration, which was accepted, exactly when no iteration whose receive
succeeds comes after one that leaves its reply outstanding. -/
theorem replies_paired (strerror : Errno → String) (locals : ℕ → Locals) (its : List Iteration)
    (junkSocket : Handle) (junkAllocated : Bool) (endPoint : String) (calls : ConnectCalls)
    (heap : Heap) :
    (∀ reports, reqRepClient strerror junkSocket junkAllocated endPoint calls heap its =
        some (0, reports) →
      ((∀ o ∈ reports, o.Own) ↔ its.Pairwise Iteration.Clear)) ∧
    ∀ messages callbacks s as t, reqRepClientAsync strerror locals its junkSocket junkAllocated
        endPoint calls heap messages callbacks = some s →
      Meets (step strerror its) Keeps s as → run (step strerror its) s as = some t →
      ((∀ o ∈ t.reports, o.Own) ↔ (its.take t.reports.length).Pairwise Iteration.Clear) := by
  refine ⟨fun reports h => own_of_reqRepClient h, ?_⟩
  intro messages callbacks s as t hs hm hr
  unfold reqRepClientAsync at hs
  split at hs
  · cases hs
  · obtain rfl := Option.some.inj hs
    exact own_of_run hm hr

/-- Two iterations, of which the first gets no reply if its receive is
interrupted. -/
def twice (first : Except Errno (Addr × Bytes)) : List Iteration :=
  [⟨0, 1, 0, ⟨none, none⟩, ⟨none, first⟩⟩,
    ⟨1, 1, 0, ⟨none, none⟩, ⟨none, .ok (2, [111, 107])⟩⟩]

theorem replies_paired_fails : ¬ ∀ (strerror : Errno → String) (junkSocket : Handle)
    (junkAllocated : Bool) (endPoint : String) (calls : ConnectCalls) (heap : Heap)
    (its : List Iteration) (reports : List (Outcome RequestLoop.Request)),
    reqRepClient strerror junkSocket junkAllocated endPoint calls heap its = some (0, reports) →
      ∀ o ∈ reports, o.Own := by
  intro h
  -- the second iteration's message is rejected, and it reports the first one's reply
  obtain ⟨reports, hr, hreply⟩ : ∃ reports, reqRepClient (fun _ => "") 0 false
      "tcp://localhost:5559" ⟨none, none, none⟩ (fun _ => none) (twice (.error .eintr)) =
        some (0, reports) ∧
      reports[1]?.map (fun o => (o.accepted, o.reply.map Prod.fst)) = some (false, some 0) :=
    ⟨_, rfl, rfl⟩
  obtain ⟨o, ho, heq⟩ := Option.map_eq_some_iff.mp hreply
  obtain ⟨haccepted, hsome⟩ := Prod.mk.inj heq
  obtain ⟨x, hx, -⟩ := Option.map_eq_some_iff.mp hsome
  have hown := h _ _ _ _ _ _ _ reports hr o (List.mem_of_getElem? ho) x hx
  simp [haccepted] at hown

/-- The loop with nothing in memory but its locals, for two iterations that
both get their replies. -/
def begin : State :=
  .start (fun _ => ⟨3, 4⟩) (twice (.ok (2, [111])))
    (ClientImpl.connect (fun _ => "") (.start .request 0 false) "tcp://localhost:5559"
      ⟨none, none, none⟩).2
    (fun _ => none) (fun _ => none) fun _ => none

/-- The handler of each call runs before the call's temporary is destroyed. -/
def prompt : List Action :=
  List.replicate 4 .main ++ List.replicate 5 .work ++ List.replicate 7 .main ++
    List.replicate 3 .work

theorem replies_paired_prompt :
    (∃ reports, reqRepClient (fun _ => "") 0 false "tcp://localhost:5559" ⟨none, none, none⟩
        (fun _ => none) (twice (.ok (2, [111]))) = some (0, reports) ∧
      ∀ o ∈ reports, o.Own) ∧
    ∃ t, run (step (fun _ => "") (twice (.ok (2, [111])))) begin prompt = some t ∧
      t.reports.length = 2 ∧ ∀ o ∈ t.reports, o.Own := by
  obtain ⟨hsync, hasync⟩ := replies_paired (fun _ => "") (fun _ => ⟨3, 4⟩)
    (twice (.ok (2, [111]))) 0 false "tcp://localhost:5559" ⟨none, none, none⟩ fun _ => none
  refine ⟨⟨_, rfl, (hsync _ rfl).mpr (by decide)⟩, ?_⟩
  obtain ⟨t, ht, hlength⟩ : ∃ t, run (step (fun _ => "") (twice (.ok (2, [111])))) begin prompt =
    some t ∧ t.reports.length = 2 := ⟨_, rfl, rfl⟩
  refine ⟨t, ht, hlength, ?_⟩
  have hkeeps : Meets (step (fun _ => "") (twice (.ok (2, [111])))) Keeps begin prompt := by decide
  rw [hasync (fun _ => none) (fun _ => none) begin prompt t rfl hkeeps ht, hlength]
  decide

end ZeromqAgent.AsyncRequestLoop
