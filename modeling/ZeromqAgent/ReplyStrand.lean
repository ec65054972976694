import ZeromqAgent.Worker

/-!
# An asynchronous server on its own strand

A REP server with `n` calls of `async_receive` posted in advance, each of
whose callbacks answers with `async_publish`. The strand runs the posted
handlers in order, so the publish comes after the receives posted before
it, and the socket is not readable until the publish has run.
-/

namespace ZeromqAgent.ReplyStrand

open Transition

/-- `pending` requests are in the socket; `awaiting` tells that a request
was received and not yet replied to. -/
structure System where
  worker : Worker Unit
  pending : ℕ
  awaiting : Bool

def System.start (n : ℕ) : System := ⟨.start (List.replicate n (.receive ())), 0, false⟩

inductive Event where
  | arrive
  | work
  deriving DecidableEq

/-- A REP socket shows no request between a request and its reply. -/
def System.readable (s : System) : Bool := 0 < s.pending && !s.awaiting

def replies : Task Unit → List (Task Unit)
  | .receive _ => [.send ()]
  | .send _ => []

/-- No libzmq call fails. -/
def move (w : Worker Unit) : Move Unit :=
  match w.phase with
  | .callback task => .finish (replies task)
  | _ => .go

/-- A received request waits for the reply that the next send gives it. -/
def System.advance (s : System) (w : Worker Unit) : System :=
  match s.worker.phase with
  | .recv _ => { worker := w, pending := s.pending - 1, awaiting := true }
  | .send _ => { s with worker := w, awaiting := false }
  | _ => { s with worker := w }

def step (s : System) : Event → Option System
  | .arrive => some { s with pending := s.pending + 1 }
  | .work => (s.worker.step .server s.readable (move s.worker)).map s.advance

/-- The worker polls a socket that can become readable only through a
publish that is queued behind. -/
def System.Blocked (s : System) : Prop :=
  s.worker.phase = .poll () ∧ s.awaiting = true ∧ Task.send () ∈ s.worker.queue

instance (s : System) : Decidable s.Blocked := by
  unfold System.Blocked
  infer_instance

/-! ## One receive -/

def receives (w : Worker Unit) : ℕ :=
  w.queue.count (.receive ()) +
    match w.phase with
    | .poll _ | .recv _ => 1
    | _ => 0

/-- Every receive is still to come, or its request is still unanswered. -/
def System.Bounded (n : ℕ) (s : System) : Prop :=
  receives s.worker + s.awaiting.toNat ≤ n

theorem bounded_start (n : ℕ) : (System.start n).Bounded n := by
  simp [System.Bounded, System.start, Worker.start, receives]

theorem bounded_step (n : ℕ) : Preserves step (System.Bounded n) := by
  intro s e t h hs
  cases e with
  | arrive => exact Option.some.inj h ▸ hs
  | work =>
      obtain ⟨w, hw, rfl⟩ := Option.map_eq_some_iff.mp h
      unfold System.Bounded receives at hs
      unfold System.Bounded receives
      generalize hm : move s.worker = m at hw
      cases Worker.step_cases hw with
      | setup hp => simpa [System.advance, hp, Worker.setUp] using hs
      | enter hp => simpa [System.advance, hp, Worker.setUpRest] using hs
      | leave hp _ => simpa [System.advance, hp, Worker.leave] using hs
      | take task rest hp _ hq =>
          simp only [hp, hq] at hs
          cases task with
          | send k => simpa [System.advance, hp, Task.phase] using hs
          | receive k =>
              simp [System.advance, hp, Task.phase] at hs ⊢
              omega
      | send k hp =>
          simp only [hp] at hs
          simp [System.advance, hp]
          omega
      | poll k hp _ => simpa [System.advance, hp] using hs
      | recv k hp =>
          simp only [hp] at hs
          simp [System.advance, hp]
          omega
      | recvFail k hp => simp [move, hp] at hm
      | finish task posts hp =>
          simp only [move, hp, Move.finish.injEq] at hm
          subst hm
          cases task <;> simpa [System.advance, hp, replies] using hs

theorem not_blocked_of_bounded {s : System} (hs : s.Bounded 1) : ¬ s.Blocked := by
  rintro ⟨hpoll, hawaiting, -⟩
  unfold System.Bounded receives at hs
  simp [hpoll, hawaiting] at hs

/-! ## No request -/

structure System.Quiet (s : System) : Prop where
  pending : s.pending = 0
  awaiting : s.awaiting = false
  phase : s.worker.phase ≠ .recv ()

theorem quiet_step : PreservesUnder step (fun _ e => e ≠ .arrive) System.Quiet := by
  intro s e t he h hs
  cases e with
  | arrive => exact (he rfl).elim
  | work =>
      obtain ⟨w, hw, rfl⟩ := Option.map_eq_some_iff.mp h
      generalize hm : move s.worker = m at hw
      have hphase : w.phase ≠ .recv () := by
        cases Worker.step_cases hw with
        | poll k hp hr => simp [System.readable, hs.pending] at hr
        | setup hp => simp [Worker.setUp]
        | enter hp => simp [Worker.setUpRest]
        | leave hp _ => simp [Worker.leave]
        | take task rest hp _ hq => cases task <;> simp [Task.phase]
        | _ => simp
      unfold System.advance
      split
      · next hp => exact (hs.phase hp).elim
      · exact ⟨hs.pending, rfl, hphase⟩
      · exact ⟨hs.pending, hs.awaiting, hphase⟩

/-! ## Two receives -/

/-- A request arrives, the worker starts, answers the request by posting
the publish, and goes on to the next receive. -/
def answered : List Event := .arrive :: List.replicate 7 .work

theorem blocked_of_two (n : ℕ) :
    ∃ t, run step (.start (n + 2)) answered = some t ∧ t.Blocked := by
  refine ⟨⟨⟨.poll (), List.replicate n (.receive ()) ++ [.send ()], true, true, false⟩, 0, true⟩,
    rfl, rfl, rfl, ?_⟩
  simp

/-- No run deadlocks on the strand exactly when at most one receive was
posted or no request arrives. -/
theorem reply_strand (n k : ℕ) :
    (∀ es t, es.count .arrive ≤ k → run step (.start n) es = some t → ¬ t.Blocked) ↔
      n ≤ 1 ∨ k = 0 := by
  constructor
  · intro h
    by_contra hnot
    obtain ⟨hn, hk⟩ := not_or.mp hnot
    obtain ⟨m, rfl⟩ : ∃ m, n = m + 2 := ⟨n - 2, by omega⟩
    obtain ⟨t, ht, hblocked⟩ := blocked_of_two m
    have hcount : answered.count .arrive = 1 := by decide
    exact h answered t (by omega) ht hblocked
  · rintro (hn | rfl) es t hes hr
    · have hbounded := (bounded_step n).run hr (bounded_start n)
      exact not_blocked_of_bounded (Nat.le_trans hbounded hn)
    · rintro ⟨-, hawaiting, -⟩
      have hnone : Meets step (fun _ e => e ≠ .arrive) (.start n) es := by
        apply meets_of_forall_mem
        rintro e he s rfl
        have hpos := List.count_pos_iff.mpr he
        omega
      have hs := quiet_step.run hnone hr ⟨rfl, rfl, by simp [System.start, Worker.start]⟩
      simp [hs.awaiting] at hawaiting

/-- Two receives and one request are enough for the deadlock. -/
theorem reply_strand_fails : ¬ ∀ (n : ℕ) (es : List Event) (t : System), 1 ≤ n →
    run step (.start n) es = some t → ¬ t.Blocked := by
  intro h
  obtain ⟨t, ht, hblocked⟩ := blocked_of_two 0
  exact h 2 answered t (by decide) ht hblocked

end ZeromqAgent.ReplyStrand
