import Mathlib.Data.List.Basic

/-!
# A pipe to a subscriber

A pipe has room for so many messages. From when it is open every message
offered to it is due; it waits to be taken, in order, or is dropped if the
pipe is full. What was due, taken and dropped is history.
-/

namespace Pipes

variable {α : Type*}

structure Pipe (α : Type*) where
  isOpen : Bool
  waiting : List α
  due : List α
  taken : List α
  dropped : ℕ

namespace Pipe

def start : Pipe α := ⟨false, [], [], [], 0⟩

def connect (p : Pipe α) : Pipe α := { p with isOpen := true }

def offer (capacity : ℕ) (p : Pipe α) (m : α) : Pipe α :=
  if p.isOpen then
    if p.waiting.length < capacity then { p with waiting := p.waiting ++ [m], due := p.due ++ [m] }
    else { p with due := p.due ++ [m], dropped := p.dropped + 1 }
  else p

/-- The messages one after the other. -/
def offers (capacity : ℕ) (p : Pipe α) (ms : List α) : Pipe α := ms.foldl (offer capacity) p

def take (p : Pipe α) : Option (α × Pipe α) :=
  match p.waiting with
  | [] => none
  | m :: rest => some (m, { p with waiting := rest, taken := p.taken ++ [m] })

theorem take_eq_some {p q : Pipe α} {m : α} (h : p.take = some (m, q)) :
    ∃ rest, p.waiting = m :: rest ∧ q = { p with waiting := rest, taken := p.taken ++ [m] } := by
  cases hw : p.waiting with
  | nil => simp [take, hw] at h
  | cons m' rest =>
      simp only [take, hw, Option.some.injEq, Prod.mk.injEq] at h
      obtain ⟨rfl, rfl⟩ := h
      exact ⟨rest, rfl, rfl⟩

theorem take_eq_none {p : Pipe α} : p.take = none ↔ p.waiting = [] := by
  cases hw : p.waiting <;> simp [take, hw]

/-! ## What an offer does -/

@[simp] theorem offers_nil (capacity : ℕ) (p : Pipe α) : p.offers capacity [] = p := rfl

@[simp] theorem offers_cons (capacity : ℕ) (p : Pipe α) (m : α) (ms : List α) :
    p.offers capacity (m :: ms) = (p.offer capacity m).offers capacity ms := rfl

@[simp] theorem isOpen_offer (capacity : ℕ) (p : Pipe α) (m : α) :
    (p.offer capacity m).isOpen = p.isOpen := by
  unfold offer
  split
  · split <;> rfl
  · rfl

@[simp] theorem taken_offer (capacity : ℕ) (p : Pipe α) (m : α) :
    (p.offer capacity m).taken = p.taken := by
  unfold offer
  split
  · split <;> rfl
  · rfl

theorem due_offer (capacity : ℕ) (p : Pipe α) (m : α) :
    (p.offer capacity m).due = p.due ++ if p.isOpen then [m] else [] := by
  unfold offer
  split
  · split <;> rfl
  · exact (List.append_nil _).symm

@[simp] theorem isOpen_offers (capacity : ℕ) (p : Pipe α) (ms : List α) :
    (p.offers capacity ms).isOpen = p.isOpen := by
  induction ms generalizing p with
  | nil => rfl
  | cons m ms ih => rw [offers_cons, ih, isOpen_offer]

@[simp] theorem taken_offers (capacity : ℕ) (p : Pipe α) (ms : List α) :
    (p.offers capacity ms).taken = p.taken := by
  induction ms generalizing p with
  | nil => rfl
  | cons m ms ih => rw [offers_cons, ih, taken_offer]

theorem due_offers (capacity : ℕ) (p : Pipe α) (ms : List α) :
    (p.offers capacity ms).due = p.due ++ if p.isOpen then ms else [] := by
  induction ms generalizing p with
  | nil => simp
  | cons m ms ih =>
      rw [offers_cons, ih, due_offer, isOpen_offer]
      split <;> simp

/-! ## What becomes of the messages -/

/-- What was taken and what waits is, in its order, what was due, less what
was dropped. -/
structure Accounts (capacity : ℕ) (p : Pipe α) : Prop where
  order : List.Sublist (p.taken ++ p.waiting) p.due
  length : p.due.length = p.taken.length + p.waiting.length + p.dropped
  waiting_le : p.waiting.length ≤ capacity

variable {capacity : ℕ} {p q : Pipe α} {m : α}

theorem accounts_start (capacity : ℕ) : (start : Pipe α).Accounts capacity :=
  ⟨List.Sublist.refl _, rfl, Nat.zero_le _⟩

theorem Accounts.connect (h : p.Accounts capacity) : p.connect.Accounts capacity :=
  ⟨h.order, h.length, h.waiting_le⟩

theorem Accounts.offer (h : p.Accounts capacity) (m : α) :
    (p.offer capacity m).Accounts capacity := by
  obtain ⟨horder, hlength, hwaiting⟩ := h
  unfold Pipe.offer
  split
  · split
    · next hroom =>
        refine ⟨?_, ?_, ?_⟩
        · rw [← List.append_assoc]
          exact horder.append (List.Sublist.refl [m])
        · simp only [List.length_append, List.length_singleton, hlength]
          omega
        · rw [List.length_append, List.length_singleton]
          exact hroom
    · refine ⟨horder.trans (List.sublist_append_left _ _), ?_, hwaiting⟩
      simp only [List.length_append, List.length_singleton, hlength]
      omega
  · exact ⟨horder, hlength, hwaiting⟩

theorem Accounts.offers (h : p.Accounts capacity) (ms : List α) :
    (p.offers capacity ms).Accounts capacity := by
  induction ms generalizing p with
  | nil => exact h
  | cons m ms ih => exact ih (h.offer m)

theorem Accounts.take (h : p.Accounts capacity) (ht : p.take = some (m, q)) :
    q.Accounts capacity := by
  obtain ⟨horder, hlength, hwaiting⟩ := h
  obtain ⟨rest, hw, rfl⟩ := take_eq_some ht
  rw [hw] at horder hlength hwaiting
  simp only [List.length_cons] at hlength hwaiting
  refine ⟨by simpa using horder, ?_, Nat.le_of_succ_le hwaiting⟩
  simp only [List.length_append, List.length_singleton]
  omega

/-- Nothing was dropped exactly when nothing is missing. -/
theorem Accounts.all_iff (h : p.Accounts capacity) :
    p.taken ++ p.waiting = p.due ↔ p.dropped = 0 := by
  have hlength := h.length
  constructor
  · intro heq
    rw [← heq, List.length_append] at hlength
    omega
  · intro hzero
    apply h.order.eq_of_length
    rw [List.length_append]
    omega

end Pipe

end Pipes
