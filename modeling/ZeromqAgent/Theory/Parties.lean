import ZeromqAgent.Theory.Transition
import ZeromqAgent.Theory.Turns

/-!
# Parties, call by call

The loops of a requester and of a replier in a network, where the calls of
other parties come between any two of theirs. What their calls make of
their sockets is what the iterations that have ended make of them: rounds
for a requester, and for a replier the requests it received and whether
the last of them is unanswered.
-/

namespace Parties

open Transition Turns

variable {τ : Type*}

/-! ## A requester -/

/-- A call, with whether it fails for reasons of its own. -/
inductive Ask (τ : Type*) where
  | send (request : τ) (fails : Bool)
  | receive (fails : Bool)

/-- The iterations that have not ended, whether the loop is at the second
call of one, and its socket. -/
structure Requester (τ : Type*) where
  left : ℕ
  receiving : Bool
  outstanding : Bool
  accepted : List τ

namespace Requester

def start (n : ℕ) : Requester τ := ⟨n, false, false, []⟩

/-- A send is rejected while a reply is outstanding, a receive while none
is; neither ends the loop. -/
def step (q : Requester τ) : Ask τ → Option (Requester τ)
  | .send request fails =>
      if q.left ≠ 0 ∧ q.receiving = false then
        let q' := { q with receiving := true }
        if q.outstanding = true ∨ fails = true then some q'
        else some { q' with outstanding := true, accepted := q.accepted ++ [request] }
      else none
  | .receive fails =>
      if q.left ≠ 0 ∧ q.receiving = true then
        some { q with
          left := q.left - 1
          receiving := false
          outstanding := q.outstanding && fails }
      else none

end Requester

/-- The rounds that have ended, and the send of one that has not. -/
abbrev Asked (τ : Type*) := List (Round τ) × Option (τ × Bool)

def noteAsk (p : Asked τ) : Ask τ → Asked τ
  | .send request fails => (p.1, some (request, fails))
  | .receive fails => (p.1 ++ p.2.toList.map fun q => ⟨q.1, q.2, fails⟩, none)

def asked (ks : List (Ask τ)) : Asked τ := ks.foldl noteAsk ([], none)

theorem asked_snoc (ks : List (Ask τ)) (k : Ask τ) :
    asked (ks ++ [k]) = noteAsk (asked ks) k := by
  simp [asked]

/-- The requests of the rounds are those of the sends. -/
theorem forall_asked {P : τ → Prop} {ks : List (Ask τ)}
    (h : ∀ request fails, .send request fails ∈ ks → P request) :
    (∀ r ∈ (asked ks).1, P r.request) ∧ ∀ q ∈ (asked ks).2, P q.1 := by
  induction ks using List.reverseRecOn with
  | nil => simp [asked]
  | append_singleton ks k ih =>
      obtain ⟨hrounds, hopen⟩ := ih fun request fails hmem =>
        h request fails (List.mem_append_left _ hmem)
      rw [asked_snoc]
      cases k with
      | send request fails =>
          refine ⟨hrounds, ?_⟩
          rintro q ⟨⟩
          exact h request fails (List.mem_append_right _ List.mem_cons_self)
      | receive fails =>
          refine ⟨?_, by simp [noteAsk]⟩
          intro r hr
          rcases List.mem_append.mp hr with hr | hr
          · exact hrounds r hr
          · obtain ⟨q, hq, rfl⟩ := List.mem_map.mp hr
            exact hopen q (Option.mem_toList.mp hq)

/-- Whether a reply is outstanding, and the requests accepted. -/
def socket (p : Asked τ) : Bool × List τ :=
  let outstanding := after none p.1
  let sent := accepted (outcomes none p.1)
  match p.2 with
  | none => (outstanding.isSome, sent)
  | some (request, fails) =>
      let (ok, outstanding) := Turns.send outstanding request fails
      (outstanding.isSome, if ok then sent ++ [request] else sent)

theorem socket_send (rounds : List (Round τ)) (request : τ) (fails : Bool) :
    socket (rounds, some (request, fails)) =
      if (socket (rounds, none)).1 = true ∨ fails = true then socket (rounds, none)
      else (true, (socket (rounds, none)).2 ++ [request]) := by
  cases h : after none rounds <;> cases fails <;> simp [socket, h, Turns.send]

theorem socket_receive (rounds : List (Round τ)) (request : τ) (sendFails fails : Bool) :
    socket (rounds ++ [⟨request, sendFails, fails⟩], none) =
      ((socket (rounds, some (request, sendFails))).1 && fails,
        (socket (rounds, some (request, sendFails))).2) := by
  simp only [socket, outcomes_concat, after_concat]
  cases h : after none rounds <;> cases sendFails <;> cases fails <;>
    simp [accepted, Round.play, Turns.send, Turns.receive]

/-- The rounds tell the state of the loop. -/
structure Plays (n : ℕ) (p : Asked τ) (q : Requester τ) : Prop where
  receiving : q.receiving = p.2.isSome
  left : q.left + p.1.length = n
  socket : (q.outstanding, q.accepted) = socket p

theorem plays_step {n : ℕ} {p : Asked τ} {q t : Requester τ} {k : Ask τ} (hq : Plays n p q)
    (h : q.step k = some t) : Plays n (noteAsk p k) t := by
  obtain ⟨rounds, call⟩ := p
  obtain ⟨hreceiving, hsum, hsocket⟩ := hq
  cases k with
  | send request fails =>
      obtain ⟨⟨hleft, hphase⟩, h⟩ := Option.ite_none_right_eq_some.mp h
      rw [hphase] at hreceiving
      obtain rfl : call = none := by simpa using hreceiving.symm
      have hsend := socket_send rounds request fails
      rw [← hsocket] at hsend
      dsimp only at h hsend
      split at h
      · next hwhy =>
          obtain rfl := Option.some.inj h
          rw [if_pos hwhy] at hsend
          exact ⟨rfl, hsum, hsend.symm⟩
      · next hwhy =>
          obtain rfl := Option.some.inj h
          rw [if_neg hwhy] at hsend
          exact ⟨rfl, hsum, hsend.symm⟩
  | receive fails =>
      obtain ⟨⟨hleft, hphase⟩, h⟩ := Option.ite_none_right_eq_some.mp h
      obtain rfl := Option.some.inj h
      rw [hphase] at hreceiving
      obtain ⟨⟨request, sendFails⟩, hcall⟩ := Option.isSome_iff_exists.mp hreceiving.symm
      obtain rfl : call = some (request, sendFails) := hcall
      have hreceive := socket_receive rounds request sendFails fails
      rw [← hsocket] at hreceive
      refine ⟨rfl, ?_, hreceive.symm⟩
      simp only [noteAsk, Option.toList_some, List.map_singleton, List.length_append,
        List.length_singleton] at hsum ⊢
      omega

/-- Between two iterations the loop is where its rounds have brought it. -/
theorem rounds_of_run {n : ℕ} {ks : List (Ask τ)} {q : Requester τ}
    (hr : run Requester.step (.start n) ks = some q) (hphase : q.receiving = false) :
    q.left + (asked ks).1.length = n ∧ q.outstanding = (after none (asked ks).1).isSome ∧
      q.accepted = accepted (outcomes none (asked ks).1) := by
  have hplays : Plays n (asked ks) q := by
    refine run_history (P := fun ks q => Plays n (asked ks) q) hr ⟨rfl, rfl, rfl⟩ ?_
    intro ks k q t hq h
    rw [asked_snoc]
    exact plays_step hq h
  obtain ⟨hreceiving, hleft, hsocket⟩ := hplays
  have hended : (asked ks).2 = none := by
    rw [hphase] at hreceiving
    simpa using hreceiving.symm
  rw [socket, hended] at hsocket
  obtain ⟨houtstanding, haccepted⟩ := Prod.mk.inj hsocket
  exact ⟨hleft, houtstanding, haccepted⟩

/-! ## A replier -/

inductive Stage where
  | receiving
  | replying
  | resting
  deriving DecidableEq

/-- A receive that succeeds, unless it is rejected, a reply, and the end of
the iteration. -/
inductive Serve where
  | receive (ok : Bool)
  | reply (fails : Bool)
  | rest

structure Replier where
  left : ℕ
  stage : Stage
  unanswered : Bool
  received : ℕ

namespace Replier

def start (m : ℕ) : Replier := ⟨m, .receiving, false, 0⟩

/-- A receive is rejected while a request is unanswered, and then ends the
iteration like one that fails. -/
def step (q : Replier) : Serve → Option Replier
  | .receive ok =>
      if q.left ≠ 0 ∧ q.stage = .receiving then
        if q.unanswered = true ∨ ok = false then some { q with left := q.left - 1 }
        else some { q with stage := .replying, unanswered := true, received := q.received + 1 }
      else none
  | .reply fails =>
      if q.left ≠ 0 ∧ q.stage = .replying then
        some { q with stage := .resting, unanswered := fails }
      else none
  | .rest =>
      if q.left ≠ 0 ∧ q.stage = .resting then
        some { q with left := q.left - 1, stage := .receiving }
      else none

end Replier

/-- Of an iteration, whether its receive succeeds, unless it is rejected,
and whether its reply fails. -/
def serveCalls (q : ℕ × Bool) (calls : Bool × Bool) : ℕ × Bool :=
  if q.2 = true ∨ calls.1 = false then q else (q.1 + 1, calls.2)

/-- How many requests are received, and whether the last is unanswered. -/
def served (p : List (Bool × Bool)) : ℕ × Bool := p.foldl serveCalls (0, false)

theorem served_snoc (p : List (Bool × Bool)) (calls : Bool × Bool) :
    served (p ++ [calls]) = serveCalls (served p) calls := by
  simp [served]

/-- The calls of the iterations that have ended, and those of the one that
has not, if it has received a request. -/
abbrev Served := List (Bool × Bool) × Bool

def noteServe (p : Served) : Serve → Served
  | .receive ok =>
      if (served p.1).2 = true ∨ ok = false then (p.1 ++ [(ok, false)], false) else (p.1, false)
  | .reply fails => (p.1, fails)
  | .rest => (p.1 ++ [(true, p.2)], false)

def servings (ks : List Serve) : Served := ks.foldl noteServe ([], false)

/-- What the ended iterations and the calls of an open one come to. -/
def desk (p : Served) : Stage → ℕ × Bool
  | .receiving => served p.1
  | .replying => ((served p.1).1 + 1, true)
  | .resting => ((served p.1).1 + 1, p.2)

/-- The calls tell the state of the loop. -/
structure Serves (m : ℕ) (p : Served) (q : Replier) : Prop where
  left : q.left + p.1.length = m
  desk : (q.received, q.unanswered) = desk p q.stage
  free : q.stage ≠ .receiving → (served p.1).2 = false

theorem serves_step {m : ℕ} {p : Served} {q t : Replier} {k : Serve} (hq : Serves m p q)
    (h : q.step k = some t) : Serves m (noteServe p k) t := by
  obtain ⟨hsum, hdesk, hfree⟩ := hq
  cases k with
  | receive ok =>
      obtain ⟨⟨hleft, hstage⟩, h⟩ := Option.ite_none_right_eq_some.mp h
      rw [hstage] at hdesk
      have hreceived : q.received = (served p.1).1 := congrArg Prod.fst hdesk
      have hunanswered : q.unanswered = (served p.1).2 := congrArg Prod.snd hdesk
      split at h
      · next hwhy =>
          obtain rfl := Option.some.inj h
          rw [hunanswered] at hwhy
          have hsame : served (p.1 ++ [(ok, false)]) = served p.1 := by
            rw [served_snoc, serveCalls, if_pos hwhy]
          rw [noteServe, if_pos hwhy]
          refine ⟨?_, ?_, fun hne => (hne hstage).elim⟩
          · simp only [List.length_append, List.length_singleton]
            omega
          · simp only [hstage, Parties.desk, hsame]
            exact hdesk
      · next hwhy =>
          obtain rfl := Option.some.inj h
          rw [hunanswered] at hwhy
          rw [noteServe, if_neg hwhy]
          refine ⟨hsum, ?_, fun _ => eq_false_of_ne_true (not_or.mp hwhy).1⟩
          rw [hreceived]
          rfl
  | reply fails =>
      obtain ⟨⟨hleft, hstage⟩, h⟩ := Option.ite_none_right_eq_some.mp h
      obtain rfl := Option.some.inj h
      rw [hstage] at hdesk hfree
      refine ⟨hsum, ?_, fun _ => hfree (by simp)⟩
      have hreceived : q.received = (served p.1).1 + 1 := congrArg Prod.fst hdesk
      rw [hreceived]
      rfl
  | rest =>
      obtain ⟨⟨hleft, hstage⟩, h⟩ := Option.ite_none_right_eq_some.mp h
      obtain rfl := Option.some.inj h
      rw [hstage] at hdesk hfree
      have hnext : served (p.1 ++ [(true, p.2)]) = ((served p.1).1 + 1, p.2) := by
        rw [served_snoc, serveCalls, if_neg (by simp [hfree])]
      refine ⟨?_, ?_, fun hne => (hne rfl).elim⟩
      · simp only [noteServe, List.length_append, List.length_singleton]
        omega
      · simp only [Parties.desk, noteServe, hnext]
        exact hdesk

/-- Between two iterations the loop is where its calls have brought it. -/
theorem served_of_run {m : ℕ} {ks : List Serve} {q : Replier}
    (hr : run Replier.step (.start m) ks = some q) (hstage : q.stage = .receiving) :
    q.left + (servings ks).1.length = m ∧
      (q.received, q.unanswered) = served (servings ks).1 := by
  have hserves : Serves m (servings ks) q := by
    refine run_history (P := fun ks q => Serves m (servings ks) q) hr
      ⟨rfl, rfl, fun hne => (hne rfl).elim⟩ ?_
    intro ks k q t hq h
    have hsnoc : servings (ks ++ [k]) = noteServe (servings ks) k := by simp [servings]
    rw [hsnoc]
    exact serves_step hq h
  have hdesk := hserves.desk
  rw [hstage] at hdesk
  exact ⟨hserves.left, hdesk⟩

end Parties
