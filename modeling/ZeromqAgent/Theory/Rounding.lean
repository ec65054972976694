import Mathlib.Algebra.Ring.Nat
import Mathlib.Data.Nat.Size

/-!
# Rounding to significant bits

A natural number rounded to the nearest one with at most `p` significant
bits, halfway to the one whose last place is even. The error is at most
half a unit in the last place.
-/

namespace Rounding

/-- The unit in the last place. -/
def ulp (p n : ℕ) : ℕ := 2 ^ (n.size - p)

def round (p n : ℕ) : ℕ :=
  let q := n / ulp p n
  let r := n % ulp p n
  if 2 * r < ulp p n ∨ 2 * r = ulp p n ∧ q % 2 = 0 then q * ulp p n else (q + 1) * ulp p n

theorem ulp_pos (p n : ℕ) : 0 < ulp p n := Nat.two_pow_pos _

theorem dvd_round (p n : ℕ) : ulp p n ∣ round p n := by
  unfold round
  dsimp only
  split
  · exact Nat.dvd_mul_left _ _
  · exact Nat.dvd_mul_left _ _

theorem round_eq_self_iff {p n : ℕ} : round p n = n ↔ ulp p n ∣ n := by
  constructor
  · intro h
    have hdvd := dvd_round p n
    rwa [h] at hdvd
  · intro h
    have hmod : n % ulp p n = 0 := Nat.mod_eq_zero_of_dvd h
    rw [round, hmod, if_pos (Or.inl (ulp_pos p n)), Nat.div_mul_cancel h]

theorem two_mul_round_le (p n : ℕ) : 2 * round p n ≤ 2 * n + ulp p n := by
  have hn := Nat.div_add_mod' n (ulp p n)
  unfold round
  dsimp only
  split
  · omega
  · next hup =>
      rw [Nat.add_mul]
      omega

/-- A number of at least `p` bits is large compared to its last place. -/
theorem ulp_mul_le {p n : ℕ} (hp : 0 < p) (hn : p ≤ n.size) : ulp p n * 2 ^ (p - 1) ≤ n := by
  rw [ulp, ← Nat.pow_add]
  apply Nat.lt_size.mp
  omega

theorem size_mul_two_pow {n : ℕ} (hn : n ≠ 0) (k : ℕ) : (n * 2 ^ k).size = n.size + k := by
  rw [← Nat.shiftLeft_eq, Nat.size_shiftLeft hn]

/-- Scaling by a power of two is exact. -/
theorem round_mul_two_pow {p n : ℕ} (h : round p n = n) (k : ℕ) :
    round p (n * 2 ^ k) = n * 2 ^ k := by
  by_cases hn : n = 0
  · subst hn
    rw [Nat.zero_mul, h]
  · rw [round_eq_self_iff] at h ⊢
    rw [ulp, size_mul_two_pow hn]
    by_cases hle : p ≤ n.size
    · have hexp : n.size + k - p = n.size - p + k := by omega
      rw [hexp, Nat.pow_add]
      exact Nat.mul_dvd_mul_right h _
    · apply Nat.dvd_mul_left_of_dvd
      exact Nat.pow_dvd_pow 2 (by omega)

end Rounding
