import Mathlib.Data.List.Basic

/-!
# Rounds of a request and its reply

A requester takes a request only while no reply is outstanding, and hands
out a reply only while one is; a call that fails changes nothing. Its user
plays rounds of one send and one receive and does not look at whether the
send was accepted. The reply of a round is to its own request as long as
no receive succeeds after a round whose reply has been left outstanding.
-/

namespace Turns

variable {τ : Type*}

/-- A round, with the calls that fail in it for reasons of their own. -/
structure Round (τ : Type*) where
  request : τ
  sendFails : Bool
  receiveFails : Bool

/-- What a round came to: whether its request was accepted, and the request
to which it got the reply. -/
structure Outcome (τ : Type*) where
  request : τ
  accepted : Bool
  reply : Option τ
  deriving DecidableEq

def Outcome.Own (o : Outcome τ) : Prop := ∀ t ∈ o.reply, o.accepted = true ∧ t = o.request

/-- The state is the request whose reply is outstanding. -/
def send (s : Option τ) (t : τ) (fails : Bool) : Bool × Option τ :=
  match s with
  | some u => (false, some u)
  | none => if fails then (false, none) else (true, some t)

def receive (s : Option τ) (fails : Bool) : Option τ × Option τ :=
  if fails then (none, s) else (s, none)

def Round.play (r : Round τ) (s : Option τ) : Outcome τ × Option τ :=
  let (accepted, s) := send s r.request r.sendFails
  let (reply, s) := receive s r.receiveFails
  (⟨r.request, accepted, reply⟩, s)

def after (s : Option τ) (rounds : List (Round τ)) : Option τ :=
  rounds.foldl (fun s r => (r.play s).2) s

def outcomes : Option τ → List (Round τ) → List (Outcome τ)
  | _, [] => []
  | s, r :: rounds => (r.play s).1 :: outcomes (r.play s).2 rounds

/-- If the first round leaves its reply outstanding, the second gets no reply. -/
def Clear (a b : Round τ) : Prop :=
  a.sendFails = false → a.receiveFails = true → b.receiveFails = true

@[simp] theorem length_outcomes (s : Option τ) (rounds : List (Round τ)) :
    (outcomes s rounds).length = rounds.length := by
  induction rounds generalizing s with
  | nil => rfl
  | cons r rounds ih => simp [outcomes, ih]

theorem outcomes_concat (s : Option τ) (rounds : List (Round τ)) (r : Round τ) :
    outcomes s (rounds ++ [r]) = outcomes s rounds ++ [(r.play (after s rounds)).1] := by
  induction rounds generalizing s with
  | nil => rfl
  | cons a rounds ih => simp [outcomes, after, ih]

theorem after_concat (s : Option τ) (rounds : List (Round τ)) (r : Round τ) :
    after s (rounds ++ [r]) = (r.play (after s rounds)).2 := by
  simp [after]

/-- While a reply is outstanding the requests are rejected, and the first
receive that succeeds is for a round whose request was. -/
theorem forall_own_some {t : τ} {rounds : List (Round τ)} :
    (∀ o ∈ outcomes (some t) rounds, o.Own) ↔ ∀ r ∈ rounds, r.receiveFails = true := by
  induction rounds with
  | nil => simp [outcomes]
  | cons r rounds ih =>
      cases hr : r.receiveFails with
      | false =>
          have hstale : ¬ (r.play (some t)).1.Own := by
            simp [Round.play, send, receive, hr, Outcome.Own]
          simp [outcomes, hstale, hr]
      | true =>
          have hplay : r.play (some t) = (⟨r.request, false, none⟩, some t) := by
            simp [Round.play, send, receive, hr]
          have hown : (⟨r.request, false, none⟩ : Outcome τ).Own := by simp [Outcome.Own]
          simp [outcomes, hplay, hown, ih, hr]

theorem play_none_own (r : Round τ) : (r.play none).1.Own := by
  cases hs : r.sendFails <;> cases hr : r.receiveFails <;>
    simp [Round.play, send, receive, hs, hr, Outcome.Own]

theorem forall_own_iff {rounds : List (Round τ)} :
    (∀ o ∈ outcomes none rounds, o.Own) ↔ rounds.Pairwise Clear := by
  induction rounds with
  | nil => simp [outcomes]
  | cons r rounds ih =>
      simp only [outcomes, List.forall_mem_cons, play_none_own, true_and, List.pairwise_cons]
      cases hs : r.sendFails with
      | true =>
          -- nothing is sent, so nothing is left outstanding
          have hplay : (r.play none).2 = none := by simp [Round.play, send, receive, hs]
          simp [hplay, ih, Clear, hs]
      | false =>
          cases hr : r.receiveFails with
          | false =>
              have hplay : (r.play none).2 = none := by simp [Round.play, send, receive, hs, hr]
              simp [hplay, ih, Clear, hr]
          | true =>
              have hplay : (r.play none).2 = some r.request := by
                simp [Round.play, send, receive, hs, hr]
              have hclear : (∀ b ∈ rounds, b.receiveFails = true) → rounds.Pairwise Clear := by
                intro hall
                exact List.pairwise_of_forall_mem_list fun a _ b hb _ _ => hall b hb
              simp only [hplay, forall_own_some, Clear, hs, hr, true_implies]
              exact ⟨fun hall => ⟨hall, hclear hall⟩, fun h => h.1⟩

/-! ## What the rounds come to together -/

def accepted (os : List (Outcome τ)) : List τ := (os.filter (·.accepted)).map (·.request)

def replied (os : List (Outcome τ)) : List τ := os.filterMap (·.reply)

theorem play_balance (r : Round τ) (s : Option τ) :
    s.toList ++ accepted [(r.play s).1] = replied [(r.play s).1] ++ (r.play s).2.toList := by
  cases s <;> cases hs : r.sendFails <;> cases hr : r.receiveFails <;>
    simp [accepted, replied, Round.play, send, receive, hs, hr]

/-- The replies are to the accepted requests in their order, and none is
missing but the one that is outstanding. -/
theorem balance (s : Option τ) (rounds : List (Round τ)) :
    s.toList ++ accepted (outcomes s rounds) =
      replied (outcomes s rounds) ++ (after s rounds).toList := by
  induction rounds generalizing s with
  | nil => simp [outcomes, after, accepted, replied]
  | cons r rounds ih =>
      have hfirst := play_balance r s
      have hrest := ih (r.play s).2
      have haccepted (o : Outcome τ) (os : List (Outcome τ)) :
          accepted (o :: os) = accepted [o] ++ accepted os := by
        rw [← List.singleton_append, accepted, List.filter_append, List.map_append]
        rfl
      have hreplied (o : Outcome τ) (os : List (Outcome τ)) :
          replied (o :: os) = replied [o] ++ replied os := by
        rw [← List.singleton_append, replied, List.filterMap_append]
        rfl
      have hafter : after s (r :: rounds) = after (r.play s).2 rounds := rfl
      rw [outcomes, haccepted, hreplied, hafter, ← List.append_assoc, hfirst, List.append_assoc,
        hrest, List.append_assoc]

/-! ## Other names for the requests -/

variable {υ : Type*}

def Round.map (f : τ → υ) (r : Round τ) : Round υ := ⟨f r.request, r.sendFails, r.receiveFails⟩

def Outcome.map (f : τ → υ) (o : Outcome τ) : Outcome υ :=
  ⟨f o.request, o.accepted, o.reply.map f⟩

theorem accepted_map (f : τ → υ) (os : List (Outcome τ)) :
    accepted (os.map (Outcome.map f)) = (accepted os).map f := by
  simp [accepted, List.filter_map, Outcome.map, Function.comp_def]

theorem play_map (f : τ → υ) (r : Round τ) (s : Option τ) :
    (r.map f).play (s.map f) = ((r.play s).1.map f, (r.play s).2.map f) := by
  cases s <;> cases hs : r.sendFails <;> cases hr : r.receiveFails <;>
    simp [Round.play, Round.map, Outcome.map, send, receive, hs, hr]

theorem outcomes_map (f : τ → υ) (s : Option τ) (rounds : List (Round τ)) :
    outcomes (s.map f) (rounds.map (Round.map f)) =
      (outcomes s rounds).map (Outcome.map f) := by
  induction rounds generalizing s with
  | nil => rfl
  | cons r rounds ih => simp [outcomes, play_map, ih]

theorem after_map (f : τ → υ) (s : Option τ) (rounds : List (Round τ)) :
    after (s.map f) (rounds.map (Round.map f)) = (after s rounds).map f := by
  induction rounds generalizing s with
  | nil => rfl
  | cons r rounds ih =>
      have hfirst := play_map f r s
      have hrest := ih (r.play s).2
      simp only [after, List.map_cons, List.foldl_cons, hfirst] at hrest ⊢
      exact hrest

end Turns
