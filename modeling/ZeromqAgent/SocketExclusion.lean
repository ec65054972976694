import ZeromqAgent.Worker

/-!
# One thread on the socket

The synchronous calls of a client or server use the socket on the owner's
thread, the posted handlers on the worker's. Nothing keeps the two apart
but the owner: only the destructor waits for the worker.
-/

namespace ZeromqAgent.SocketExclusion

open Transition

/-- Where the owner is: outside all calls, in a call that has so many libzmq
operations on the socket still to make, in one of them, past the test of
`m_running`, in `join`, in `zmq_close`, or past the destructor. -/
inductive Owner where
  | live
  | between (n : ℕ)
  | calling (h : Handle) (n : ℕ)
  | stopping
  | joining
  | closing (h : Handle)
  | done

def Owner.inside : Owner → Option Handle
  | .calling h _ | .closing h => some h
  | .live | .between _ | .stopping | .joining | .done => none

/-- `inside` is the socket of the operation that the worker is in. `disturbed`
tells that the owner has replaced or closed `m_socket` while the worker was
in an operation on it. -/
structure System where
  owner : Owner
  worker : Worker Unit
  inside : Option Handle
  socket : Handle
  created : ℕ
  disturbed : Bool

/-- A client or server with its first socket, connected or bound. -/
def System.start : System := ⟨.live, .start [], none, 1, 1, false⟩

/-- `call` is a send, a receive or a publish and `replace` another connect or
bind, with the outcome of its `zmq_socket`; `enter` and `leave` begin and
end their operations on the socket, and `ret` returns. `begin` begins an
operation of the worker, which a handler ends with its next step and a
callback, which may use the socket too, with `complete`. -/
inductive Event where
  | post (task : Task Unit)
  | call
  | replace (ok : Bool)
  | enter
  | leave
  | ret
  | test
  | stop
  | join
  | close
  | begin
  | complete
  | work (readable : Bool) (m : Move Unit)

/-- The phases in which the worker can be in an operation on the socket. -/
def operating : Phase Unit → Bool
  | .send _ | .poll _ | .recv _ | .callback _ => true
  | .setup | .enter | .idle | .returned => false

/-- A handler's next step ends the operation that it has begun; a callback
returns when it is in none. -/
def System.mayMove (s : System) : Bool :=
  match s.worker.phase with
  | .send _ | .poll _ | .recv _ => s.inside.isSome
  | _ => s.inside.isNone

def System.disturb (s : System) : Bool := s.disturbed || s.inside = some s.socket

def System.replace (s : System) : Bool → System
  | true =>
      { s with
        owner := .between 2
        socket := s.created + 1
        created := s.created + 1
        disturbed := s.disturb }
  | false => { s with socket := 0, disturbed := s.disturb }

def step (role : Role) (s : System) : Event → Option System
  | .post task =>
      match s.owner with
      | .live => some { s with worker := s.worker.post task }
      | _ => none
  | .call =>
      match s.owner with
      | .live => some { s with owner := .between 1 }
      | _ => none
  | .replace ok =>
      match s.owner with
      | .live => some (s.replace ok)
      | _ => none
  | .enter =>
      match s.owner with
      | .between (n + 1) => some { s with owner := .calling s.socket n }
      | _ => none
  | .leave =>
      match s.owner with
      | .calling _ n => some { s with owner := .between n }
      | _ => none
  | .ret =>
      match s.owner with
      | .between _ => some { s with owner := .live }
      | _ => none
  | .test =>
      match s.owner with
      | .live => some { s with owner := if s.worker.running then .stopping else .joining }
      | _ => none
  | .stop =>
      match s.owner with
      | .stopping => some { s with owner := .joining, worker := { s.worker with stopped := true } }
      | _ => none
  | .join =>
      match s.owner, s.worker.phase with
      | .joining, .returned =>
          some { s with owner := .closing s.socket, disturbed := s.disturb }
      | _, _ => none
  | .close =>
      match s.owner with
      | .closing _ => some { s with owner := .done }
      | _ => none
  | .begin =>
      if operating s.worker.phase ∧ s.inside = none then some { s with inside := some s.socket }
      else none
  | .complete =>
      match s.worker.phase, s.inside with
      | .callback _, some _ => some { s with inside := none }
      | _, _ => none
  | .work readable m =>
      if s.mayMove then
        (s.worker.step role readable m).map fun w => { s with worker := w, inside := none }
      else none

/-- Both threads are in an operation on one socket. -/
def System.Overlap (s : System) : Prop := ∃ h, s.owner.inside = some h ∧ s.inside = some h

def System.Exclusive (s : System) : Prop := ¬ s.Overlap ∧ s.disturbed = false

/-- The owner makes a synchronous call, and gets a new socket, only when
every posted handler has ended, and loses its socket to a failed
`zmq_socket` only when the worker is not in an operation on it. -/
def Alone (s : System) : Event → Prop
  | .call | .replace true => s.worker.tasks = []
  | .replace false => s.inside ≠ some s.socket
  | _ => True

inductive Step (role : Role) (s : System) : Event → System → Prop
  | post (task : Task Unit) (ho : s.owner = .live) :
      Step role s (.post task) { s with worker := s.worker.post task }
  | call (ho : s.owner = .live) : Step role s .call { s with owner := .between 1 }
  | replace (ok : Bool) (ho : s.owner = .live) : Step role s (.replace ok) (s.replace ok)
  | enter (n : ℕ) (ho : s.owner = .between (n + 1)) :
      Step role s .enter { s with owner := .calling s.socket n }
  | leave (h : Handle) (n : ℕ) (ho : s.owner = .calling h n) :
      Step role s .leave { s with owner := .between n }
  | ret (n : ℕ) (ho : s.owner = .between n) : Step role s .ret { s with owner := .live }
  | test (ho : s.owner = .live) :
      Step role s .test { s with owner := if s.worker.running then .stopping else .joining }
  | stop (ho : s.owner = .stopping) :
      Step role s .stop { s with owner := .joining, worker := { s.worker with stopped := true } }
  | join (ho : s.owner = .joining) (hw : s.worker.phase = .returned) :
      Step role s .join { s with owner := .closing s.socket, disturbed := s.disturb }
  | close (h : Handle) (ho : s.owner = .closing h) : Step role s .close { s with owner := .done }
  | begin (hop : operating s.worker.phase = true) (hin : s.inside = none) :
      Step role s .begin { s with inside := some s.socket }
  | complete (task : Task Unit) (hp : s.worker.phase = .callback task) :
      Step role s .complete { s with inside := none }
  | work (readable : Bool) (m : Move Unit) (w : Worker Unit)
      (hw : s.worker.step role readable m = some w) :
      Step role s (.work readable m) { s with worker := w, inside := none }

theorem step_cases {role : Role} {s t : System} {e : Event} (h : step role s e = some t) :
    Step role s e t := by
  cases e with
  | post task =>
      simp only [step] at h
      split at h
      · next ho => exact Option.some.inj h ▸ .post task ho
      · cases h
  | call =>
      simp only [step] at h
      split at h
      · next ho => exact Option.some.inj h ▸ .call ho
      · cases h
  | replace ok =>
      simp only [step] at h
      split at h
      · next ho => exact Option.some.inj h ▸ .replace ok ho
      · cases h
  | enter =>
      simp only [step] at h
      split at h
      · next n ho => exact Option.some.inj h ▸ .enter n ho
      · cases h
  | leave =>
      simp only [step] at h
      split at h
      · next k n ho => exact Option.some.inj h ▸ .leave k n ho
      · cases h
  | ret =>
      simp only [step] at h
      split at h
      · next n ho => exact Option.some.inj h ▸ .ret n ho
      · cases h
  | test =>
      simp only [step] at h
      split at h
      · next ho => exact Option.some.inj h ▸ .test ho
      · cases h
  | stop =>
      simp only [step] at h
      split at h
      · next ho => exact Option.some.inj h ▸ .stop ho
      · cases h
  | join =>
      simp only [step] at h
      split at h
      · next ho hw => exact Option.some.inj h ▸ .join ho hw
      · cases h
  | close =>
      simp only [step] at h
      split at h
      · next k ho => exact Option.some.inj h ▸ .close k ho
      · cases h
  | begin =>
      obtain ⟨⟨hop, hin⟩, h⟩ := Option.ite_none_right_eq_some.mp h
      exact Option.some.inj h ▸ .begin hop hin
  | complete =>
      simp only [step] at h
      split at h
      · next task _ hp _ => exact Option.some.inj h ▸ .complete task hp
      · cases h
  | work readable m =>
      obtain ⟨-, h⟩ := Option.ite_none_right_eq_some.mp h
      obtain ⟨w, hw, rfl⟩ := Option.map_eq_some_iff.mp h
      exact .work readable m w hw

/-! ## Runs that meet the condition -/

theorem tasks_ne_nil {w : Worker Unit} (h : operating w.phase = true) : w.tasks ≠ [] := by
  cases hp : w.phase with
  | setup | enter | idle | returned => simp [operating, hp] at h
  | send k | poll k | recv k | callback task => simp [Worker.tasks, Phase.current, hp]

theorem tasks_eq_nil_of_step {role : Role} {readable : Bool} {w v : Worker Unit} {m : Move Unit}
    (h : w.step role readable m = some v) (hw : w.tasks = []) : v.tasks = [] := by
  obtain ⟨hcurrent, hqueue⟩ := List.append_eq_nil_iff.mp hw
  cases Worker.step_cases h with
  | setup hp => cases role <;> simp [Worker.tasks, Worker.setUp, Phase.current, hqueue]
  | enter hp => cases role <;> simp [Worker.tasks, Worker.setUpRest, Phase.current, hqueue]
  | leave hp _ => simp [Worker.tasks, Worker.leave, Phase.current, hqueue]
  | take task rest hp hs hq => simp [hqueue] at hq
  | send k hp | poll k hp _ | recv k hp | recvFail k hp | finish task posts hp =>
      simp [Phase.current, hp] at hcurrent

/-- In a call, on its own part or in the destructor. -/
def Owner.busy : Owner → Bool
  | .between _ | .calling _ _ => true
  | .live | .stopping | .joining | .closing _ | .done => false

def Owner.running : Owner → Bool
  | .live | .between _ | .calling _ _ | .stopping => true
  | .joining | .closing _ | .done => false

/-- The worker is in an operation only in a handler and on the current
socket, has no handler while the owner is in a call, and has left when the
owner closes the socket. -/
structure Inv (role : Role) (s : System) : Prop where
  inside : ∀ h, s.inside = some h → h = s.socket ∧ operating s.worker.phase = true
  busy : s.owner.busy = true → s.worker.tasks = []
  closing : ∀ h, s.owner = .closing h → s.worker.phase = .returned
  undisturbed : s.disturbed = false
  setUp : s.worker.SetUp role
  running : s.owner.running = true → s.worker.stopped = false
  left : s.worker.phase = .returned → s.worker.stopped = true

theorem inv_start (role : Role) : Inv role .start where
  inside := by simp [System.start]
  busy := by simp [System.start, Owner.busy]
  closing := by simp [System.start]
  undisturbed := rfl
  setUp := ⟨rfl, rfl⟩
  running := fun _ => rfl
  left := by simp [System.start, Worker.start]

theorem Inv.inside_none {role : Role} {s : System} (h : Inv role s) (hw : s.worker.tasks = []) :
    s.inside = none := by
  cases hin : s.inside with
  | none => rfl
  | some k => exact (tasks_ne_nil (h.inside k hin).2 hw).elim

theorem Inv.exclusive {role : Role} {s : System} (h : Inv role s) : s.Exclusive := by
  refine ⟨?_, h.undisturbed⟩
  rintro ⟨k, howner, hin⟩
  have hop := (h.inside k hin).2
  cases ho : s.owner with
  | calling l n => exact tasks_ne_nil hop (h.busy (by simp [ho, Owner.busy]))
  | closing l => simp [h.closing l ho, operating] at hop
  | live | between n | stopping | joining | done => simp [ho, Owner.inside] at howner

theorem Inv.owner {role : Role} {s : System} (hs : Inv role s) {o : Owner}
    (hbusy : o.busy = true → s.worker.tasks = []) (hclosing : ∀ h, o ≠ .closing h)
    (hrunning : o.running = true → s.worker.stopped = false) : Inv role { s with owner := o } where
  inside := hs.inside
  busy := hbusy
  closing := fun h ho => (hclosing h ho).elim
  undisturbed := hs.undisturbed
  setUp := hs.setUp
  running := hrunning
  left := hs.left

/-- The owner does not disturb a worker that is in no operation on the socket. -/
theorem Inv.disturb_eq {role : Role} {s : System} (hs : Inv role s)
    (hin : s.inside ≠ some s.socket) : s.disturb = false := by
  simp [System.disturb, hs.undisturbed, hin]

theorem inv_replace {role : Role} {s : System} {ok : Bool} (hs : Inv role s)
    (ho : s.owner = .live) (halone : Alone s (.replace ok)) : Inv role (s.replace ok) := by
  have hstopped := hs.running (by simp [ho, Owner.running])
  cases ok with
  | true =>
      have hnone := hs.inside_none halone
      refine ⟨?_, fun _ => halone, by simp [System.replace], ?_, hs.setUp, fun _ => hstopped,
        hs.left⟩
      · simp [System.replace, hnone]
      · exact hs.disturb_eq (by simp [hnone])
  | false =>
      have hnone : s.inside = none := by
        cases hin : s.inside with
        | none => rfl
        | some k =>
            obtain rfl := (hs.inside k hin).1
            exact (halone hin).elim
      refine ⟨?_, ?_, ?_, ?_, hs.setUp, fun _ => hstopped, hs.left⟩
      · simp [System.replace, hnone]
      · simp [System.replace, ho, Owner.busy]
      · simp [System.replace, ho]
      · exact hs.disturb_eq (by simp [hnone])

theorem inv_work {role : Role} {s : System} {readable : Bool} {m : Move Unit} {w : Worker Unit}
    (hs : Inv role s) (hw : s.worker.step role readable m = some w) :
    Inv role { s with worker := w, inside := none } where
  inside := by simp
  busy := fun hb => tasks_eq_nil_of_step hw (hs.busy hb)
  closing := by
    intro h ho
    have hp := hs.closing h ho
    cases m <;> simp [Worker.step, hp] at hw
  undisturbed := hs.undisturbed
  setUp := Worker.setUp_step hw hs.setUp
  running := fun hr => (Worker.stopped_of_step hw).trans (hs.running hr)
  left := by
    intro hp
    have hsetUp := hs.setUp
    cases Worker.step_cases hw with
    | setup hp' => cases role <;> simp [Worker.setUp] at hp
    | enter hp' => cases role <;> simp [Worker.setUpRest] at hp
    | leave hp' hleave =>
        -- the `work` object is there, so only a stop makes `run` return
        simp only [Worker.SetUp, hp'] at hsetUp
        simpa [Worker.leave, hsetUp] using hleave
    | take task rest hp' _ _ => cases task <;> simp [Task.phase] at hp
    | send k _ | poll k _ _ | recv k _ | recvFail k _ | finish task posts _ => simp at hp

theorem inv_step (role : Role) : PreservesUnder (step role) Alone (Inv role) := by
  intro s e t halone h hs
  have hbusy : s.owner.busy = true → s.worker.tasks = [] := hs.busy
  have hrunning : s.owner.running = true → s.worker.stopped = false := hs.running
  cases step_cases h with
  | post task ho =>
      refine ⟨hs.inside, ?_, hs.closing, hs.undisturbed, hs.setUp, hs.running, hs.left⟩
      simp [ho, Owner.busy]
  | call ho =>
      rw [ho] at hrunning
      exact hs.owner (fun _ => halone) (by simp) hrunning
  | replace ok ho => exact inv_replace hs ho halone
  | enter n ho | leave k n ho =>
      rw [ho] at hbusy hrunning
      exact hs.owner hbusy (by simp) hrunning
  | ret n ho =>
      rw [ho] at hrunning
      exact hs.owner (by simp [Owner.busy]) (by simp) hrunning
  | test ho =>
      rw [ho] at hrunning
      apply hs.owner
      · split <;> simp [Owner.busy]
      · intro k
        split <;> simp
      · exact fun _ => hrunning rfl
  | stop ho =>
      refine ⟨hs.inside, ?_, ?_, hs.undisturbed, hs.setUp, ?_, fun _ => rfl⟩
      · simp [Owner.busy]
      · simp
      · simp [Owner.running]
  | join ho hw =>
      -- a worker that has left is in no operation
      have hnone : s.inside = none := by
        cases hin : s.inside with
        | none => rfl
        | some k => simpa [hw, operating] using (hs.inside k hin).2
      refine ⟨hs.inside, ?_, fun _ _ => hw, ?_, hs.setUp, ?_, hs.left⟩
      · simp [Owner.busy]
      · exact hs.disturb_eq (by simp [hnone])
      · simp [Owner.running]
  | close k ho => exact hs.owner (by simp [Owner.busy]) (by simp) (by simp [Owner.running])
  | begin hop hin =>
      refine ⟨?_, hs.busy, hs.closing, hs.undisturbed, hs.setUp, hs.running, hs.left⟩
      intro k hk
      exact ⟨(Option.some.inj hk).symm, hop⟩
  | complete task hp =>
      exact ⟨by simp, hs.busy, hs.closing, hs.undisturbed, hs.setUp, hs.running, hs.left⟩
  | work readable m w hw => exact inv_work hs hw

/-! ## A step that does not meet the condition -/

/-- A worker that has a handler to execute can come to an operation on the
socket, where the owner's call meets it. -/
theorem reaches_overlap (role : Role) {s : System} {n : ℕ} (ho : s.owner = .between (n + 1))
    (hin : s.inside = none) (htasks : s.worker.tasks ≠ []) (hstopped : s.worker.stopped = false)
    (hleft : s.worker.phase ≠ .returned) : ∃ t, Reaches (step role) s t ∧ t.Overlap := by
  obtain ⟨owner, ⟨phase, queue, running, guard, stopped⟩, inside, socket, created, disturbed⟩ := s
  dsimp only at ho hin hstopped
  subst ho hin hstopped
  cases phase with
  | returned => exact (hleft rfl).elim
  | send k | poll k | recv k | callback task =>
      exact ⟨_, ⟨[.begin, .enter], rfl⟩, socket, rfl, rfl⟩
  | idle =>
      obtain ⟨task, rest, rfl⟩ := List.exists_cons_of_ne_nil htasks
      cases task <;> exact ⟨_, ⟨[.work false .go, .begin, .enter], rfl⟩, socket, rfl, rfl⟩
  | enter =>
      obtain ⟨task, rest, rfl⟩ := List.exists_cons_of_ne_nil htasks
      cases role <;> cases task <;>
        exact ⟨_, ⟨[.work false .go, .work false .go, .begin, .enter], rfl⟩, socket, rfl, rfl⟩
  | setup =>
      obtain ⟨task, rest, rfl⟩ := List.exists_cons_of_ne_nil htasks
      cases role <;> cases task <;>
        exact ⟨_, ⟨[.work false .go, .work false .go, .work false .go, .begin, .enter], rfl⟩,
          socket, rfl, rfl⟩

theorem reaches_of_not_alone {role : Role} {s t : System} {e : Event} (hs : Inv role s)
    (halone : ¬ Alone s e) (h : step role s e = some t) :
    ∃ u, Reaches (step role) t u ∧ ¬ u.Exclusive := by
  have hleft : s.owner = .live → s.worker.phase ≠ .returned := by
    intro ho hp
    have hstopped := hs.running (by simp [ho, Owner.running])
    rw [hs.left hp] at hstopped
    cases hstopped
  have hinside : s.inside ≠ none → s.inside = some s.socket := by
    intro hin
    obtain ⟨k, hk⟩ := Option.ne_none_iff_exists'.mp hin
    rw [hk, (hs.inside k hk).1]
  cases step_cases h with
  | call ho =>
      have hstopped := hs.running (by simp [ho, Owner.running])
      by_cases hin : s.inside = none
      · obtain ⟨u, hu, hoverlap⟩ := reaches_overlap role
          (s := { s with owner := .between 1 }) rfl hin halone hstopped (hleft ho)
        exact ⟨u, hu, fun hex => hex.1 hoverlap⟩
      · refine ⟨_, ⟨[.enter], rfl⟩, ?_⟩
        exact fun hex => hex.1 ⟨s.socket, rfl, hinside hin⟩
  | replace ok ho =>
      have hdisturb : s.inside = some s.socket → ¬ (s.replace ok).Exclusive := by
        intro hin hex
        have hd : s.disturb = false := by cases ok <;> exact hex.2
        simp [System.disturb, hin] at hd
      cases ok with
      | true =>
          have hstopped := hs.running (by simp [ho, Owner.running])
          by_cases hin : s.inside = none
          · obtain ⟨u, hu, hoverlap⟩ := reaches_overlap role (s := s.replace true) rfl
              hin halone hstopped (hleft ho)
            exact ⟨u, hu, fun hex => hex.1 hoverlap⟩
          · exact ⟨_, Reaches.refl _ _, hdisturb (hinside hin)⟩
      | false => exact ⟨_, Reaches.refl _ _, hdisturb (not_not.mp halone)⟩
  | _ => exact (halone trivial).elim

/-- In a run in which the owner makes synchronous calls, and gets a new
socket, only when no handler is left, the two threads are never in an
operation on one socket, and the owner replaces or closes no socket that
the worker uses. A step of the owner that does not meet this can lead to
the contrary. -/
theorem socket_exclusion {role : Role} {es : List Event} {s : System}
    (hr : run (step role) .start es = some s) (hm : Meets (step role) Alone .start es) :
    s.Exclusive ∧ ∀ e t, ¬ Alone s e → step role s e = some t →
      ∃ u, Reaches (step role) t u ∧ ¬ u.Exclusive := by
  have hs := (inv_step role).run hm hr (inv_start role)
  exact ⟨hs.exclusive, fun e t halone h => reaches_of_not_alone hs halone h⟩

instance decidableAlone : ∀ (s : System) (e : Event), Decidable (Alone s e)
  | s, .call | s, .replace true => inferInstanceAs (Decidable (s.worker.tasks = []))
  | s, .replace false => inferInstanceAs (Decidable (s.inside ≠ some s.socket))
  | _, .post _ | _, .enter | _, .leave | _, .ret | _, .test | _, .stop | _, .join | _, .close
  | _, .begin | _, .complete | _, .work _ _ => inferInstanceAs (Decidable True)

/-- An asynchronous send, a synchronous one after it, and the destructor
while a receive polls. -/
def oneAfterTheOther : List Event :=
  [.work false .go, .work false .go, .post (.send ()), .work false .go, .begin, .work false .go,
    .work false (.finish []), .call, .enter, .leave, .ret, .post (.receive ()), .work false .go,
    .begin, .test, .stop, .work true .go, .begin, .work false .fail, .work false .go, .join]

theorem socket_exclusion_oneAfterTheOther : ∃ s,
    run (step .client) .start oneAfterTheOther = some s ∧ s.owner.inside = some 1 ∧
      s.Exclusive := by
  obtain ⟨s, hs, hinside⟩ : ∃ s, run (step .client) .start oneAfterTheOther = some s ∧
      s.owner.inside = some 1 := ⟨_, rfl, rfl⟩
  have hm : Meets (step .client) Alone .start oneAfterTheOther := by decide
  exact ⟨s, hs, hinside, (socket_exclusion hs hm).1⟩

/-- A synchronous receive while the handler of an `async_receive` polls. -/
theorem socket_exclusion_fails : ¬ ∀ (role : Role) (es : List Event) (s : System),
    run (step role) .start es = some s → s.Exclusive := by
  intro h
  have hex := h .client [.work false .go, .work false .go, .post (.receive ()), .work false .go,
    .begin, .call, .enter] _ rfl
  exact hex.1 ⟨1, rfl, rfl⟩

end ZeromqAgent.SocketExclusion
