import ZeromqAgent.Theory.Extrema
import ZeromqAgent.Theory.Transition
import Mathlib.Algebra.BigOperators.Group.List.Basic
import Mathlib.Algebra.Ring.Nat
import Mathlib.Data.List.TakeWhile

/-!
# The measuring loop

The loop of the benchmark client `wuclient.c`, which times each `zmq_recv`
in milliseconds. Its variables are unsigned and have 32 bits; `max` also
tells that a first sample was taken, and `min` starts from 999999. The
average, which is computed after the loop in floating point, is left out.
-/

namespace ZeromqAgent.Wuclient

open Extrema Transition

/-- The two readings of `s_clock` in one pass, with the result of the
`zmq_recv` between them. -/
structure Packet where
  start : Int64
  size : ℤ
  stop : Int64
  ordered : start ≤ stop

def Packet.timeTook (p : Packet) : UInt32 := (p.stop.toUInt64 - p.start.toUInt64).toUInt32

structure Totals where
  totalMicroSec : UInt32
  max : UInt32
  min : UInt32
  deriving DecidableEq

def Totals.start : Totals := ⟨0, 0, 999999⟩

def Totals.add (t : Totals) (timeTook : UInt32) : Totals where
  totalMicroSec := if t.max ≠ 0 then t.totalMicroSec + timeTook else t.totalMicroSec
  max := if timeTook > t.max then timeTook else t.max
  min := if timeTook < t.min then timeTook else t.min

/-- A pass that receives nothing leaves the program. -/
def step (t : Totals) (p : Packet) : Option Totals :=
  if p.size = -1 then none else some (t.add p.timeTook)

/-- The loop, with a packet for each of its passes. -/
def measure (packets : List Packet) : Option Totals := run step .start packets

/-! ## What the totals should be -/

/-- The time that passed. -/
def Packet.sample (p : Packet) : ℕ := (p.stop.toInt - p.start.toInt).toNat

/-- `totalMicroSec` leaves out the first sample. -/
structure Totals.Describes (t : Totals) (samples : List ℕ) : Prop where
  max : IsGreatest {x | x ∈ samples} t.max.toNat
  min : IsLeast {x | x ∈ samples} t.min.toNat
  total : t.totalMicroSec.toNat = samples.tail.sum

/-- The samples and their sum fit the variables, one of them is at most the
value that `min` starts from, and the first is 0 only if all are. -/
structure Fits (samples : List ℕ) : Prop where
  narrow : ∀ x ∈ samples, x < 2 ^ 32
  total : samples.tail.sum < 2 ^ 32
  min : ∃ x ∈ samples, x ≤ 999999
  warm : samples.head? = some 0 → ∀ x ∈ samples, x = 0

/-! ## The samples that are added up -/

/-- Those after the first that is not 0. -/
def counted (xs : List ℕ) : List ℕ := (xs.dropWhile (· = 0)).tail

theorem counted_cons_zero (xs : List ℕ) : counted (0 :: xs) = counted xs := by simp [counted]

theorem counted_cons_of_ne {x : ℕ} (hx : x ≠ 0) (xs : List ℕ) : counted (x :: xs) = xs := by
  simp [counted, hx]

theorem counted_of_zeros {xs : List ℕ} (h : ∀ x ∈ xs, x = 0) : counted xs = [] := by
  have hnil : xs.dropWhile (· = 0) = [] := List.dropWhile_eq_nil_iff.mpr (by simpa using h)
  rw [counted, hnil, List.tail_nil]

theorem counted_snoc (xs : List ℕ) (x : ℕ) :
    counted (xs ++ [x]) = if ∀ y ∈ xs, y = 0 then [] else counted xs ++ [x] := by
  induction xs with
  | nil => by_cases hx : x = 0 <;> simp [counted, hx]
  | cons y xs ih =>
      by_cases hy : y = 0
      · subst hy
        simpa [counted_cons_zero] using ih
      · simp [counted_cons_of_ne hy, hy]

/-- The first sample that is not 0 is left out of the sum. -/
theorem sum_counted_lt {xs : List ℕ} {x : ℕ} (hx : x ∈ xs) (hne : x ≠ 0) :
    (counted xs).sum < xs.sum := by
  induction xs with
  | nil => cases hx
  | cons y xs ih =>
      by_cases hy : y = 0
      · subst hy
        rcases List.mem_cons.mp hx with rfl | hx
        · exact (hne rfl).elim
        · simpa [counted_cons_zero] using ih hx
      · rw [counted_cons_of_ne hy, List.sum_cons]
        omega

/-! ## The loop -/

theorem toNat_timeTook (p : Packet) : p.timeTook.toNat = p.sample % 2 ^ 32 := by
  have hordered := Int64.le_iff_toInt_le.mp p.ordered
  have hstart : p.start.toInt = Int.bmod p.start.toUInt64.toNat (2 ^ 64) :=
    BitVec.toInt_eq_toNat_bmod _
  have hstop : p.stop.toInt = Int.bmod p.stop.toUInt64.toNat (2 ^ 64) :=
    BitVec.toInt_eq_toNat_bmod _
  have hlt := p.start.toUInt64.toNat_lt
  have hlt' := p.stop.toUInt64.toNat_lt
  rw [Packet.timeTook, UInt64.toNat_toUInt32, UInt64.toNat_sub, Packet.sample]
  rw [Int.bmod_def] at hstart hstop
  omega

def narrowed (packets : List Packet) : List ℕ := packets.map fun p => p.timeTook.toNat

/-- What the variables hold after some passes, with the values that `max` and
`min` start from among the samples. -/
structure Inv (packets : List Packet) (t : Totals) : Prop where
  max : IsGreatest (insert 0 {x | x ∈ narrowed packets}) t.max.toNat
  min : IsLeast (insert 999999 {x | x ∈ narrowed packets}) t.min.toNat
  total : t.totalMicroSec.toNat = (counted (narrowed packets)).sum % 2 ^ 32

theorem inv_start : Inv [] .start where
  max := by simp [narrowed, Totals.start]
  min := by simp [narrowed, Totals.start]
  total := rfl

theorem setOf_mem_snoc (xs : List ℕ) (a x : ℕ) :
    insert a {y | y ∈ xs ++ [x]} = insert x (insert a {y | y ∈ xs}) := by
  ext y
  simp only [Set.mem_insert_iff, Set.mem_ofPred_eq, List.mem_append, List.mem_singleton]
  tauto

/-- `max` is 0 as long as all samples were. -/
theorem Inv.max_eq_zero {packets : List Packet} {t : Totals} (h : Inv packets t) :
    t.max = 0 ↔ ∀ x ∈ narrowed packets, x = 0 := by
  have hzero : t.max = 0 ↔ t.max.toNat = 0 := by
    rw [← UInt32.toNat_inj]
    rfl
  rw [hzero]
  constructor
  · intro hmax x hx
    have hle := h.max.2 (Set.mem_insert_of_mem 0 hx)
    omega
  · intro hall
    rcases h.max.1 with hmax | hmem
    · exact hmax
    · exact hall _ hmem

theorem inv_step {packets : List Packet} {p : Packet} {t u : Totals} (h : Inv packets t)
    (hstep : step t p = some u) : Inv (packets ++ [p]) u := by
  obtain ⟨-, hu⟩ := Option.ite_none_left_eq_some.mp hstep
  obtain rfl := Option.some.inj hu
  have hnarrowed : narrowed (packets ++ [p]) = narrowed packets ++ [p.timeTook.toNat] := by
    simp [narrowed]
  constructor
  · rw [hnarrowed, setOf_mem_snoc]
    have hmax := isGreatest_insert_ite h.max p.timeTook.toNat
    simpa [Totals.add, apply_ite UInt32.toNat, UInt32.lt_iff_toNat_lt] using hmax
  · rw [hnarrowed, setOf_mem_snoc]
    have hmin := isLeast_insert_ite h.min p.timeTook.toNat
    simpa [Totals.add, apply_ite UInt32.toNat, UInt32.lt_iff_toNat_lt] using hmin
  · have htotal := h.total
    rw [hnarrowed, counted_snoc]
    by_cases hzero : ∀ x ∈ narrowed packets, x = 0
    · rw [counted_of_zeros hzero] at htotal
      rw [if_pos hzero]
      simpa [Totals.add, h.max_eq_zero.mpr hzero] using htotal
    · have hmax : t.max ≠ 0 := fun hmax => hzero (h.max_eq_zero.mp hmax)
      rw [if_neg hzero, Totals.add, if_pos hmax, UInt32.toNat_add, htotal, List.sum_append,
        List.sum_singleton, Nat.mod_add_mod]

theorem inv_measure {packets : List Packet} {t : Totals} (h : measure packets = some t) :
    Inv packets t :=
  run_history h inv_start fun _ _ _ _ hs hstep => inv_step hs hstep

/-! ## When the totals are those of the samples -/

theorem narrowed_eq {packets : List Packet}
    (h : ∀ x ∈ packets.map Packet.sample, x < 2 ^ 32) :
    narrowed packets = packets.map Packet.sample := by
  apply List.map_congr_left
  intro p hp
  rw [toNat_timeTook, Nat.mod_eq_of_lt]
  exact h _ (List.mem_map_of_mem hp)

/-- With a first sample of 0 the sum is right only when all are 0. -/
theorem total_iff {samples : List ℕ} (hsum : samples.tail.sum < 2 ^ 32) :
    (counted samples).sum % 2 ^ 32 = samples.tail.sum ↔
      (samples.head? = some 0 → ∀ x ∈ samples, x = 0) := by
  cases samples with
  | nil => simp [counted]
  | cons x xs =>
      by_cases hx : x = 0
      · subst hx
        simp only [counted_cons_zero, List.tail_cons, List.head?_cons, forall_const,
          List.forall_mem_cons, true_and] at hsum ⊢
        constructor
        · intro htotal y hy
          by_contra hne
          have hlt := sum_counted_lt hy hne
          rw [Nat.mod_eq_of_lt (by omega)] at htotal
          omega
        · intro hzero
          rw [counted_of_zeros hzero, List.sum_eq_zero hzero]
          rfl
      · rw [counted_cons_of_ne hx]
        simpa [hx] using Nat.mod_eq_of_lt hsum

/-- The variables are the largest sample, the smallest and the sum of all
but the first exactly when the samples fit. -/
theorem totals_describe {packets : List Packet} {t : Totals} (hne : packets ≠ [])
    (h : measure packets = some t) :
    t.Describes (packets.map Packet.sample) ↔ Fits (packets.map Packet.sample) := by
  have hinv := inv_measure h
  have hmax : (∀ x ∈ packets.map Packet.sample, x < 2 ^ 32) →
      IsGreatest {x | x ∈ packets.map Packet.sample} t.max.toNat := by
    intro hnarrow
    rw [isGreatest_iff_of_insert (narrowed_eq hnarrow ▸ hinv.max)]
    obtain ⟨p, hp⟩ := List.exists_mem_of_ne_nil packets hne
    exact ⟨p.sample, List.mem_map_of_mem hp, Nat.zero_le _⟩
  constructor
  · intro hdescribes
    have hnarrow : ∀ x ∈ packets.map Packet.sample, x < 2 ^ 32 := by
      intro x hx
      exact lt_of_le_of_lt (hdescribes.max.2 hx) t.max.toNat_lt
    have htotal : (packets.map Packet.sample).tail.sum < 2 ^ 32 :=
      hdescribes.total ▸ t.totalMicroSec.toNat_lt
    refine ⟨hnarrow, htotal, ?_, ?_⟩
    · exact (isLeast_iff_of_insert (narrowed_eq hnarrow ▸ hinv.min)).mp hdescribes.min
    · rw [← total_iff htotal, ← narrowed_eq hnarrow, ← hinv.total, hdescribes.total,
        narrowed_eq hnarrow]
  · intro hfits
    refine ⟨hmax hfits.narrow, ?_, ?_⟩
    · exact (isLeast_iff_of_insert (narrowed_eq hfits.narrow ▸ hinv.min)).mpr hfits.min
    · rw [hinv.total, narrowed_eq hfits.narrow]
      exact (total_iff hfits.total).mpr hfits.warm

/-- Samples of 5, 3 and 9 milliseconds. -/
def measured : List Packet :=
  [⟨1000, 73, 1005, by decide⟩, ⟨1005, 73, 1008, by decide⟩, ⟨1010, 73, 1019, by decide⟩]

theorem totals_describe_measured : ∃ t, measure measured = some t ∧ t.Describes [5, 3, 9] := by
  refine ⟨⟨12, 9, 3⟩, by decide, ?_⟩
  have hfits : Fits [5, 3, 9] := ⟨by decide, by decide, by decide, by decide⟩
  exact (totals_describe (by decide : measured ≠ []) (by decide)).mpr hfits

/-- The first message is there at once, the second takes 7 milliseconds. -/
theorem totals_describe_fails : ¬ ∀ (packets : List Packet) (t : Totals), packets ≠ [] →
    measure packets = some t → t.Describes (packets.map Packet.sample) := by
  intro h
  have htotal := (h [⟨1000, 73, 1000, by decide⟩, ⟨1000, 73, 1007, by decide⟩] ⟨0, 7, 0⟩
    (by decide) (by decide)).total
  exact absurd htotal (by decide)

end ZeromqAgent.Wuclient
