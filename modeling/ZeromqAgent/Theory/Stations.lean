import Mathlib.Algebra.BigOperators.Group.Finset.Sigma
import Mathlib.Algebra.BigOperators.Ring.Finset
import Mathlib.Algebra.Order.BigOperators.Group.Finset
import Mathlib.Data.Fintype.Basic
import Mathlib.Data.List.Nodup
import Mathlib.Logic.Function.Basic

/-!
# Tokens in a network of queues

Each token has a state, which names the queue the token waits in, if it
waits in one. `Carries` says that every queue lists the messages of
exactly the tokens that wait there, each token once. A token enters the
network at the end of a queue, moves from the head of one queue to the
end of another, and leaves it from the head of a queue.
-/

namespace Stations

variable {ι τ π μ : Type*} {place : τ → Option π} {msg : π → ι → τ → μ} {T : ι → τ} {q : π → List μ}

/-- One queue lists the tokens at its place, each once. -/
def Lists (place : τ → Option π) (msg : π → ι → τ → μ) (T : ι → τ) (p : π)
    (l : List μ) : Prop :=
  ∃ is : List ι, is.Nodup ∧ (∀ i, i ∈ is ↔ place (T i) = some p) ∧
    l = is.map fun i => msg p i (T i)

def Carries (place : τ → Option π) (msg : π → ι → τ → μ) (T : ι → τ) (q : π → List μ) : Prop :=
  ∀ p, Lists place msg T p (q p)

variable [DecidableEq ι]

theorem map_update_of_notMem {is : List ι} {i : ι} (hi : i ∉ is) (t : τ) (f : ι → τ → μ) :
    (is.map fun j => f j (Function.update T i t j)) = is.map fun j => f j (T j) := by
  apply List.map_congr_left
  intro j hj
  have hne : j ≠ i := fun he => hi (he ▸ hj)
  rw [Function.update_of_ne hne]

theorem Lists.frame {p : π} {l : List μ} (h : Lists place msg T p l) {i : ι} {t : τ}
    (hi : place (T i) ≠ some p) (ht : place t ≠ some p) :
    Lists place msg (Function.update T i t) p l := by
  obtain ⟨is, hnodup, hmem, rfl⟩ := h
  have hnot : i ∉ is := fun hin => hi ((hmem i).mp hin)
  refine ⟨is, hnodup, ?_, (map_update_of_notMem hnot t (msg p)).symm⟩
  intro j
  by_cases hj : j = i
  · subst hj
    simp [hnot, ht]
  · rw [Function.update_of_ne hj]
    exact hmem j

theorem Lists.push {p : π} {l : List μ} (h : Lists place msg T p l) {i : ι} {t : τ}
    (hi : place (T i) ≠ some p) (ht : place t = some p) :
    Lists place msg (Function.update T i t) p (l ++ [msg p i t]) := by
  obtain ⟨is, hnodup, hmem, rfl⟩ := h
  have hnot : i ∉ is := fun hin => hi ((hmem i).mp hin)
  refine ⟨is ++ [i], ?_, ?_, ?_⟩
  · refine List.nodup_append.mpr ⟨hnodup, by simp, ?_⟩
    intro a ha b hb hab
    have hbi : b = i := List.mem_singleton.mp hb
    exact hnot (hbi ▸ hab ▸ ha)
  · intro j
    by_cases hj : j = i
    · subst hj
      simp [ht]
    · rw [Function.update_of_ne hj]
      simpa [hj] using hmem j
  · simp [map_update_of_notMem hnot t (msg p)]

theorem Lists.pop {p : π} {m : μ} {rest : List μ} (h : Lists place msg T p (m :: rest)) :
    ∃ i, place (T i) = some p ∧ m = msg p i (T i) ∧
      ∀ t, place t ≠ some p → Lists place msg (Function.update T i t) p rest := by
  obtain ⟨is, hnodup, hmem, heq⟩ := h
  cases is with
  | nil => simp at heq
  | cons i is =>
      obtain ⟨hm, hrest⟩ := List.cons.inj heq
      obtain ⟨hnot, hnodup⟩ := List.nodup_cons.mp hnodup
      have hi : place (T i) = some p := (hmem i).mp List.mem_cons_self
      refine ⟨i, hi, hm, ?_⟩
      intro t ht
      refine ⟨is, hnodup, ?_, ?_⟩
      · intro j
        by_cases hj : j = i
        · subst hj
          simp [hnot, ht]
        · rw [Function.update_of_ne hj, ← hmem j]
          simp [hj]
      · rw [map_update_of_notMem hnot t (msg p)]
        exact hrest

variable [DecidableEq π]

theorem Carries.enter (h : Carries place msg T q) {i : ι} {t : τ} {r : π}
    (hi : place (T i) = none) (ht : place t = some r) :
    Carries place msg (Function.update T i t) (Function.update q r (q r ++ [msg r i t])) := by
  intro p
  by_cases hp : p = r
  · subst hp
    simpa using (h p).push (by simp [hi]) ht
  · rw [Function.update_of_ne hp]
    exact (h p).frame (by simp [hi]) (by simpa [ht] using Ne.symm hp)

theorem Carries.leave (h : Carries place msg T q) {p : π} {m : μ} {rest : List μ}
    (hq : q p = m :: rest) : ∃ i, place (T i) = some p ∧ m = msg p i (T i) ∧
      ∀ t, place t = none →
        Carries place msg (Function.update T i t) (Function.update q p rest) := by
  have hp := h p
  rw [hq] at hp
  obtain ⟨i, hi, hm, hpop⟩ := hp.pop
  refine ⟨i, hi, hm, ?_⟩
  intro t ht p'
  by_cases hp' : p' = p
  · subst hp'
    simpa using hpop t (by simp [ht])
  · rw [Function.update_of_ne hp']
    exact (h p').frame (by simpa [hi] using Ne.symm hp') (by simp [ht])

theorem Carries.move (h : Carries place msg T q) {p : π} {m : μ} {rest : List μ}
    (hq : q p = m :: rest) : ∃ i, place (T i) = some p ∧ m = msg p i (T i) ∧
      ∀ r t, r ≠ p → place t = some r → Carries place msg (Function.update T i t)
        (Function.update (Function.update q p rest) r (q r ++ [msg r i t])) := by
  have hp := h p
  rw [hq] at hp
  obtain ⟨i, hi, hm, hpop⟩ := hp.pop
  refine ⟨i, hi, hm, ?_⟩
  intro r t hpr ht p'
  by_cases hr : p' = r
  · subst hr
    simpa using (h p').push (by simpa [hi] using Ne.symm hpr) ht
  · rw [Function.update_of_ne hr]
    by_cases hp' : p' = p
    · subst hp'
      simpa using hpop t (by simpa [ht] using Ne.symm hr)
    · rw [Function.update_of_ne hp']
      exact (h p').frame (by simpa [hi] using Ne.symm hp') (by simpa [ht] using Ne.symm hr)

/-! ## The load of the network -/

section

variable {π μ : Type*} [Fintype π] {q : π → List μ}

/-- Every message counts as much as its queue says. -/
def load (cost : π → ℕ) (q : π → List μ) : ℕ := ∑ p, (q p).length * cost p

/-- Entries of a list counted by the one property that each of them has. -/
theorem sum_countP {α : Type*} {l : List α} (P : π → α → Prop) [∀ p a, Decidable (P p a)]
    (h : ∀ a ∈ l, ∃! p, P p a) : ∑ p, l.countP (fun a => P p a) = l.length := by
  induction l with
  | nil => simp
  | cons a l ih =>
      obtain ⟨p, hp, hunique⟩ := h a List.mem_cons_self
      have hone : ∑ r, (if P r a then 1 else 0) = 1 := by
        rw [Finset.sum_eq_single p (fun r _ hr => if_neg fun hra => hr (hunique r hra))
          (fun hnot => (hnot (Finset.mem_univ p)).elim), if_pos hp]
      simp only [List.countP_cons, Finset.sum_add_distrib, List.length_cons, decide_eq_true_eq,
        ih fun b hb => h b (List.mem_cons_of_mem a hb), hone]

variable (cost : π → ℕ)

theorem load_add (cost' : π → ℕ) :
    load (fun p => cost p + cost' p) q = load cost q + load cost' q := by
  simp only [load, Nat.mul_add, Finset.sum_add_distrib]

variable [DecidableEq π]

theorem sum_update (f : π → ℕ) (p : π) (n : ℕ) :
    (∑ r, Function.update f p n r) + f p = (∑ r, f r) + n := by
  have hf := Finset.add_sum_erase Finset.univ f (Finset.mem_univ p)
  rw [Finset.sum_update_of_mem (Finset.mem_univ p), ← hf, Finset.sdiff_singleton_eq_erase]
  omega

/-- A sum of which one summand has become less. -/
theorem sum_lt_of_lt_of_eq {f g : π → ℕ} {p : π} (hp : g p < f p) (h : ∀ r, r ≠ p → g r = f r) :
    ∑ r, g r < ∑ r, f r := by
  refine Finset.sum_lt_sum (fun r _ => ?_) ⟨p, Finset.mem_univ p, hp⟩
  by_cases hr : r = p
  · subst hr
    exact hp.le
  · exact (h r hr).le

theorem le_load_pair {p r : π} (h : p ≠ r) :
    (q p).length * cost p + (q r).length * cost r ≤ load cost q := by
  rw [load, ← Finset.sum_pair (f := fun p => (q p).length * cost p) h]
  exact Finset.sum_le_sum_of_subset (Finset.subset_univ _)

theorem load_update (p : π) (l : List μ) :
    load cost (Function.update q p l) + (q p).length * cost p =
      load cost q + l.length * cost p := by
  have hupdate : (fun r => (Function.update q p l r).length * cost r) =
      Function.update (fun r => (q r).length * cost r) p (l.length * cost p) := by
    funext r
    by_cases hr : r = p
    · subst hr
      simp
    · simp [Function.update_of_ne hr]
  rw [load, load, hupdate]
  exact sum_update (fun r => (q r).length * cost r) p (l.length * cost p)

theorem load_leave {p : π} {m : μ} {rest : List μ} (hq : q p = m :: rest) :
    load cost (Function.update q p rest) + cost p = load cost q := by
  have h := load_update cost (q := q) p rest
  rw [hq, List.length_cons, Nat.succ_mul] at h
  omega

theorem load_move {p r : π} {m : μ} (n : μ) {rest : List μ} (hq : q p = m :: rest) (hr : r ≠ p) :
    load cost (Function.update (Function.update q p rest) r (q r ++ [n])) + cost p =
      load cost q + cost r := by
  have hleave := load_leave cost hq
  have h := load_update cost (q := Function.update q p rest) r (q r ++ [n])
  rw [Function.update_of_ne hr, List.length_append, List.length_singleton, Nat.succ_mul] at h
  omega

/-! ## Loops of two calls

Parties in loops whose iterations have two calls each; `second` tells who is
at the second call. The sum is that of the calls still to come. -/

theorem sum_calls_first (left : π → ℕ) {second : π → Bool} {p : π} (hp : second p = false) :
    ∑ r, (2 * left r + (!Function.update second p true r).toNat) <
      ∑ r, (2 * left r + (!second r).toNat) := by
  apply sum_lt_of_lt_of_eq (p := p)
  · simp [hp]
  · intro r hr
    simp [Function.update_of_ne hr]

theorem sum_calls_second {left : π → ℕ} {second : π → Bool} {p : π} (hleft : left p ≠ 0)
    (hp : second p = true) :
    ∑ r, (2 * Function.update left p (left p - 1) r +
        (!Function.update second p false r).toNat) <
      ∑ r, (2 * left r + (!second r).toNat) := by
  apply sum_lt_of_lt_of_eq (p := p)
  · simp only [Function.update_self, hp, Bool.not_false, Bool.not_true, Bool.toNat_false,
      Bool.toNat_true]
    omega
  · intro r hr
    simp [Function.update_of_ne hr]

end

/-- Counted by the tokens, each of which is in one queue at most. -/
theorem Carries.load_eq [Fintype ι] [Fintype π] (h : Carries place msg T q) (cost : π → ℕ) :
    load cost q = ∑ i, (place (T i)).elim 0 cost := by
  have hlength (p : π) : (q p).length = ∑ i, if place (T i) = some p then 1 else 0 := by
    obtain ⟨is, hnodup, hmem, heq⟩ := h p
    rw [heq, List.length_map, ← Finset.card_filter, ← List.toFinset_card_of_nodup hnodup]
    congr 1
    ext i
    simp [hmem]
  simp only [load, hlength, Finset.sum_mul]
  rw [Finset.sum_comm]
  apply Finset.sum_congr rfl
  intro i _
  cases place (T i) with
  | none => simp
  | some r => simp

end Stations
