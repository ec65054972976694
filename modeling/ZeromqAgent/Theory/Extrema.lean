import Mathlib.Order.Bounds.Basic

/-!
# Running extremes that start from a value of their own

A running maximum or minimum starts from some value and is replaced by each
larger or smaller element. What it yields is the extreme of the elements
and the starting value; it is that of the elements alone exactly when one
of them reaches the starting value.
-/

namespace Extrema

variable {α : Type*}

theorem isGreatest_insert_ite [LinearOrder α] {S : Set α} {m : α} (h : IsGreatest S m) (x : α) :
    IsGreatest (insert x S) (if m < x then x else m) := by
  rw [← max_def_lt, max_comm]
  exact h.insert x

theorem isLeast_insert_ite [LinearOrder α] {S : Set α} {m : α} (h : IsLeast S m) (x : α) :
    IsLeast (insert x S) (if x < m then x else m) := by
  rw [← min_def_lt]
  exact h.insert x

theorem isGreatest_iff_of_insert [PartialOrder α] {S : Set α} {a m : α}
    (h : IsGreatest (insert a S) m) : IsGreatest S m ↔ ∃ x ∈ S, a ≤ x := by
  constructor
  · intro hS
    exact ⟨m, hS.1, h.2 (Set.mem_insert a S)⟩
  · rintro ⟨x, hx, hle⟩
    refine ⟨?_, fun y hy => h.2 (Set.mem_insert_of_mem a hy)⟩
    rcases h.1 with rfl | hm
    · exact (hle.antisymm (h.2 (Set.mem_insert_of_mem m hx))) ▸ hx
    · exact hm

theorem isLeast_iff_of_insert [PartialOrder α] {S : Set α} {a m : α}
    (h : IsLeast (insert a S) m) : IsLeast S m ↔ ∃ x ∈ S, x ≤ a :=
  isGreatest_iff_of_insert (α := αᵒᵈ) h

end Extrema
