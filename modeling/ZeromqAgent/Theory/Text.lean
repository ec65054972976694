import Mathlib.Data.Nat.Digits.Lemmas

/-!
# Numerals and lines

Text that reads back. A number is written in a base, its most significant
digit first, with zeros in front up to a width; the digits from ten on are
capital letters. Pairs of digits in base sixteen carry bytes. Lines none
of which holds the terminator are recovered from the text they make up.
-/

namespace Text

def digit (d : ℕ) : UInt8 := if d < 10 then .ofNat (48 + d) else .ofNat (55 + d)

def value (c : UInt8) : ℕ := if c.toNat < 65 then c.toNat - 48 else c.toNat - 55

theorem toNat_digit {d : ℕ} (h : d < 36) :
    (digit d).toNat = if d < 10 then 48 + d else 55 + d := by
  unfold digit
  split <;> simp <;> omega

theorem value_digit {d : ℕ} (h : d < 36) : value (digit d) = d := by
  rw [value, toNat_digit h]
  split <;> split <;> omega

def numeral (base width n : ℕ) : List UInt8 := ((Nat.digitsAppend base width n).map digit).reverse

def parse (base : ℕ) (cs : List UInt8) : ℕ := Nat.ofDigits base (cs.reverse.map value)

/-- The characters of a numeral are decimal digits or capital letters. -/
theorem toNat_mem {base width n : ℕ} (hbase : 1 < base) (hle : base ≤ 36) {c : UInt8}
    (hc : c ∈ numeral base width n) : 48 ≤ c.toNat ∧ c.toNat ≤ 90 := by
  obtain ⟨d, hd, rfl⟩ := List.mem_map.mp (List.mem_reverse.mp hc)
  have hlt : d < base := Nat.lt_of_mem_digitsAppend hbase width d hd
  rw [toNat_digit (Nat.lt_of_lt_of_le hlt hle)]
  split <;> omega

theorem parse_numeral {base : ℕ} (hbase : 1 < base) (hle : base ≤ 36) (width n : ℕ) :
    parse base (numeral base width n) = n := by
  have hdigits : ((Nat.digitsAppend base width n).map digit).map value =
      Nat.digitsAppend base width n := by
    rw [List.map_map]
    refine (List.map_congr_left ?_).trans (List.map_id _)
    intro d hd
    have hlt : d < base := Nat.lt_of_mem_digitsAppend hbase width d hd
    exact value_digit (Nat.lt_of_lt_of_le hlt hle)
  rw [parse, numeral, List.reverse_reverse, hdigits, Nat.digitsAppend,
    Nat.ofDigits_append_replicate_zero, Nat.ofDigits_digits]

theorem length_numeral {base width n : ℕ} (hbase : 1 < base) (hn : n < base ^ width) :
    (numeral base width n).length = width := by
  rw [numeral, List.length_reverse, List.length_map, Nat.length_digitsAppend hbase width hn]

/-! ## Bytes as pairs of digits -/

def hex (bytes : List UInt8) : List UInt8 := bytes.flatMap fun b => numeral 16 2 b.toNat

def unhex : List UInt8 → List UInt8
  | a :: b :: cs => .ofNat (parse 16 [a, b]) :: unhex cs
  | _ => []

theorem exists_pair (b : UInt8) : ∃ c d, numeral 16 2 b.toNat = [c, d] :=
  List.length_eq_two.mp (length_numeral (by decide) b.toNat_lt)

theorem unhex_hex (bytes : List UInt8) : unhex (hex bytes) = bytes := by
  induction bytes with
  | nil => rfl
  | cons b bytes ih =>
      obtain ⟨c, d, hpair⟩ := exists_pair b
      have hparse : parse 16 [c, d] = b.toNat := by
        rw [← hpair, parse_numeral (by decide) (by decide)]
      have hcons : hex (b :: bytes) = c :: d :: hex bytes := by
        rw [hex, List.flatMap_cons, hpair]
        rfl
      rw [hcons, unhex, hparse, ih, UInt8.ofNat_toNat]

theorem length_hex (bytes : List UInt8) : (hex bytes).length = 2 * bytes.length := by
  induction bytes with
  | nil => rfl
  | cons b bytes ih =>
      have hpair : (numeral 16 2 b.toNat).length = 2 := length_numeral (by decide) b.toNat_lt
      rw [hex, List.flatMap_cons, List.length_append, hpair, ← hex, ih, List.length_cons]
      omega

/-! ## Lines -/

theorem splitOn_lines {α : Type*} [DecidableEq α] {x : α} {ls : List (List α)}
    (h : ∀ l ∈ ls, x ∉ l) : (ls.flatMap (· ++ [x])).splitOn x = ls ++ [[]] := by
  induction ls with
  | nil => rfl
  | cons l ls ih =>
      have hrest := ih fun l hl => h l (List.mem_cons_of_mem _ hl)
      rw [List.flatMap_cons, List.append_assoc, List.singleton_append,
        List.splitOn_append_cons_self_of_not_mem (h l List.mem_cons_self), hrest]
      rfl

end Text
