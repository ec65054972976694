import ZeromqAgent.BrokerLoop
import ZeromqAgent.Zmq
import ZeromqAgent.Theory.Rounding
import ZeromqAgent.Theory.Text
import Mathlib.Data.List.TakeWhile

/-!
# The helpers of the C programs

The functions of `zhelpers.h` that move strings and print messages, in
their version for POSIX. A result of `zmq_msg_recv` or `zmq_recv` is the
part that was received, or `none` for a failure. `zmq_msg_init` and
`zmq_msg_close` do not fail and `zmq_msg_data` is never null.
-/

namespace ZeromqAgent.Zhelpers

open Framing Text BrokerLoop

/-! ## Strings -/

/-- What stands before the terminator. -/
abbrev CString := { bytes : Bytes // 0 ∉ bytes }

/-- The result and the queue of the socket after `zmq_send` of a string. -/
def zmqSend (queue : List Part) (string : CString) (more : Bool) : Option Errno → ℤ × List Part
  | some _ => (-1, queue)
  | none => (toInt string.val.length, queue ++ [(string.val, more)])

def sSend (queue : List Part) (string : CString) (r : Option Errno) : ℤ × List Part :=
  zmqSend queue string false r

def sSendmore (queue : List Part) (string : CString) (r : Option Errno) : ℤ × List Part :=
  zmqSend queue string true r

/-- `zmq_recv` writes at most `len` bytes and returns the length of the part. -/
def zmqRecv (buffer : Bytes) (len : ℕ) (part : Bytes) : Bytes × ℤ :=
  (part.take len ++ buffer.drop (min len part.length), toInt part.length)

/-- `buffer[i] = c`, where the index is one of the buffer. -/
def store (buffer : Bytes) (i : ℤ) (c : UInt8) : Option Bytes :=
  if 0 ≤ i ∧ i < buffer.length then some (buffer.set i.toNat c) else none

def strndup (s : Bytes) (n : ℕ) : Bytes := (s.take n).takeWhile (· ≠ 0)

/-- `buffer` is what its 256 bytes hold before; the inner `none` is `NULL`. -/
def sRecv (buffer : Bytes) : Option Bytes → Option (Option Bytes)
  | none => some none
  | some part =>
      let (buffer, size) := zmqRecv buffer 255 part
      if size = -1 then some none
      else (store buffer size 0).map fun buffer => some (strndup buffer (256 - 1))

theorem takeWhile_terminated (xs ys : Bytes) :
    (xs ++ 0 :: ys).takeWhile (· ≠ 0) = xs.takeWhile (· ≠ 0) := by
  rw [List.takeWhile_append]
  split
  · next hall =>
      have hxs := (List.takeWhile_prefix (p := (· ≠ 0)) (l := xs)).eq_of_length hall
      simpa using hxs.symm
  · rfl

theorem strndup_terminated {part : Bytes} {n : ℕ} (h : part.length ≤ n) (junk : Bytes) :
    strndup (part ++ 0 :: junk) n = part.takeWhile (· ≠ 0) := by
  rw [strndup, List.take_append, List.take_of_length_le h]
  cases hroom : n - part.length with
  | zero => rw [List.take_zero, List.append_nil]
  | succ k => rw [List.take_succ_cons, takeWhile_terminated]

/-- A part that is too long is terminated outside the buffer. -/
theorem sRecv_eq {buffer part : Bytes} (hbuffer : buffer.length = 256)
    (hpart : part.length < 2 ^ 31) :
    sRecv buffer (some part) =
      if part.length ≤ 255 then some (some (part.takeWhile (· ≠ 0))) else none := by
  have hsize := toInt_natCast hpart
  have hne : ¬ (part.length : ℤ) = -1 := by omega
  simp only [sRecv, zmqRecv, hsize, if_neg hne]
  by_cases hle : part.length ≤ 255
  · obtain ⟨c, junk, hbehind⟩ : ∃ c junk, buffer.drop part.length = c :: junk := by
      apply List.exists_cons_of_ne_nil
      rw [Ne, List.drop_eq_nil_iff]
      omega
    have hstore : store (part ++ c :: junk) part.length 0 = some (part ++ 0 :: junk) := by
      rw [store, if_pos (by simp), Int.toNat_natCast,
        List.set_append_right _ _ (Nat.le_refl _), Nat.sub_self, List.set_cons_zero]
    rw [List.take_of_length_le hle, Nat.min_eq_right hle, hbehind, hstore, Option.map_some,
      strndup_terminated hle, if_pos hle]
  · have hlength : (part.take 255 ++ buffer.drop (min 255 part.length)).length = 256 := by
      simp [hbuffer]
    rw [store, hlength, if_neg (by omega), if_neg hle, Option.map_none]

abbrev Buffer := { bytes : Bytes // bytes.length = 256 }

/-- A message of strings, sent as the comments on the two functions say. -/
def sendStrings (queue : List Part) : List CString → List Part
  | [] => queue
  | [string] => (sSend queue string none).2
  | string :: next :: strings => sendStrings (sSendmore queue string none).2 (next :: strings)

theorem sendStrings_eq (queue : List Part) (strings : List CString) :
    sendStrings queue strings = queue ++ frame (strings.map (·.val)) := by
  induction strings generalizing queue with
  | nil => simp [sendStrings, frame]
  | cons string strings ih =>
      cases strings with
      | nil => rfl
      | cons next strings =>
          rw [sendStrings, ih]
          simp [sSendmore, zmqSend]

theorem takeWhile_string (string : CString) :
    string.val.takeWhile (· ≠ 0) = string.val := by
  apply List.takeWhile_eq_self_iff.mpr
  intro c hc
  have hne : c ≠ 0 := fun h => string.property (h ▸ hc)
  simpa using hne

theorem recvStrings {strings : List CString} {buffers : List Buffer}
    (hlength : buffers.length = strings.length) (hshort : ∀ s ∈ strings, s.val.length < 2 ^ 31) :
    List.zipWith (fun (b : Buffer) part => sRecv b.val (some part)) buffers
        (strings.map (·.val)) = strings.map (fun s => some (some s.val)) ↔
      ∀ s ∈ strings, s.val.length ≤ 255 := by
  induction strings generalizing buffers with
  | nil => simp
  | cons string strings ih =>
      cases buffers with
      | nil => cases hlength
      | cons buffer buffers =>
          have hrest := ih (Nat.succ.inj hlength) fun s hs => hshort s (List.mem_cons_of_mem _ hs)
          have hfirst := sRecv_eq buffer.property (hshort string List.mem_cons_self)
          rw [takeWhile_string] at hfirst
          rw [List.map_cons, List.zipWith_cons_cons, List.map_cons, List.cons.injEq, hrest,
            List.forall_mem_cons, hfirst]
          simp

/-- A buffer that is full of other bytes. -/
def used : Buffer := ⟨List.replicate 256 7, List.length_replicate⟩

def greeting : List CString := [⟨[104, 105], by decide⟩, ⟨[], by decide⟩]

def isText (data : Bytes) : Bool :=
  data.foldl (fun text c => if c < 32 || c > 126 then false else text) true

/-- `puts ("----------------------------------------")` without its newline. -/
def rule : Bytes := List.replicate 40 45

/-- `"[%03d] "` and the bytes of a part, without the newline. -/
def dumpLine (size : ℤ) (data : Bytes) : Bytes :=
  91 :: numeral 10 3 size.toNat ++ [93, 32] ++
    if isText (data.take size.toNat) then data.take size.toNat else hex (data.take size.toNat)

inductive Dumped where
  | waits
  | aborts
  | returns (rest : List (Option Part))

/-- The passes of the loop, with what each of them prints. -/
def dumpParts : List (Option Part) → Bytes × Dumped
  | [] => ([], .waits)
  | none :: _ => ([], .aborts)
  | some (data, more) :: rest =>
      let size := toInt data.length
      if size < 0 then ([], .aborts)
      else
        let line := dumpLine size data ++ [10]
        if more then
          let (text, d) := dumpParts rest
          (line ++ text, d)
        else (line, .returns rest)

def sDump (results : List (Option Part)) : Bytes × Dumped :=
  let (text, d) := dumpParts results
  (rule ++ [10] ++ text, d)

/-- What a line of a dump says. A part that was printed as text is as long
as the number in front of it; in hexadecimal it takes twice the room. -/
def readLine (line : Bytes) : Bytes :=
  let digits := (line.drop 1).takeWhile (· ≠ 93)
  let body := line.drop (digits.length + 3)
  if body.length = parse 10 digits then body else unhex body

def readDump (text : Bytes) : List Bytes := ((text.splitOn 10).tail.dropLast).map readLine

theorem isText_snoc (data : Bytes) (c : UInt8) :
    isText (data ++ [c]) = if c < 32 || c > 126 then false else isText data := by
  simp [isText]

theorem isText_iff (data : Bytes) : isText data = true ↔ ∀ c ∈ data, 32 ≤ c ∧ c ≤ 126 := by
  induction data using List.reverseRecOn with
  | nil => simp [isText]
  | append_singleton data c ih =>
      rw [isText_snoc, List.forall_mem_append, List.forall_mem_singleton, ← ih]
      by_cases hc : c < 32 ∨ c > 126
      · have hout : ¬ (32 ≤ c ∧ c ≤ 126) := by
          rintro ⟨hlow, hhigh⟩
          exact hc.elim (fun h => UInt8.not_lt.mpr hlow h) fun h => UInt8.not_lt.mpr hhigh h
        simp [hc, hout]
      · obtain ⟨hlow, hhigh⟩ := not_or.mp hc
        have hin : 32 ≤ c ∧ c ≤ 126 := ⟨UInt8.not_lt.mp hlow, UInt8.not_lt.mp hhigh⟩
        simp [hlow, hhigh, hin]

/-! ## What is printed of a part -/

def payload (data : Bytes) : Bytes := if isText data then data else hex data

def line (data : Bytes) : Bytes := 91 :: numeral 10 3 data.length ++ [93, 32] ++ payload data

theorem dumpLine_eq {data : Bytes} (h : data.length < 2 ^ 31) :
    dumpLine (toInt data.length) data = line data := by
  rw [dumpLine, toInt_natCast h, Int.toNat_natCast, List.take_length]
  rfl

def Printable (text : Bytes) : Prop := ∀ c ∈ text, 32 ≤ c ∧ c ≤ 126

theorem printable_numeral {base width n : ℕ} (hbase : 1 < base) (hle : base ≤ 36) :
    Printable (numeral base width n) := by
  intro c hc
  obtain ⟨hlow, hhigh⟩ := toNat_mem hbase hle hc
  simp only [UInt8.le_iff_toNat_le]
  exact ⟨Nat.le_trans (by decide) hlow, Nat.le_trans hhigh (by decide)⟩

theorem printable_payload (data : Bytes) : Printable (payload data) := by
  unfold payload
  split
  · next htext => exact (isText_iff data).mp htext
  · intro c hc
    obtain ⟨b, -, hb⟩ := List.mem_flatMap.mp hc
    exact printable_numeral (by decide) (by decide) c hb

theorem printable_line (data : Bytes) : Printable (line data) := by
  have hnumeral : Printable (numeral 10 3 data.length) :=
    printable_numeral (by decide) (by decide)
  simp only [Printable, line, List.forall_mem_append, List.cons_append, List.forall_mem_cons]
  refine ⟨by decide, ⟨hnumeral, by simp⟩, printable_payload data⟩

theorem readLine_line (data : Bytes) : readLine (line data) = data := by
  have hdigits : ∀ c ∈ numeral 10 3 data.length, c ≠ 93 := by
    rintro c hc rfl
    have hle := (toNat_mem (by decide) (by decide) hc).2
    exact absurd hle (by decide)
  have htake : ((line data).drop 1).takeWhile (· ≠ 93) = numeral 10 3 data.length := by
    simp only [line, List.cons_append, List.drop_succ_cons, List.drop_zero, List.append_assoc]
    rw [List.takeWhile_append_of_pos (by simpa using hdigits)]
    simp
  have hdrop : (line data).drop ((numeral 10 3 data.length).length + 3) = payload data := by
    apply List.drop_left'
    simp
  simp only [readLine, htake, hdrop, parse_numeral (by decide : 1 < 10) (by decide)]
  unfold payload
  split
  · rw [if_pos rfl]
  · next htext =>
      have hne : data ≠ [] := by
        rintro rfl
        exact htext rfl
      have hlength : (hex data).length ≠ data.length := by
        have hpos := List.length_pos_iff.mpr hne
        rw [length_hex]
        omega
      rw [if_neg hlength, unhex_hex]

/-! ## Whole dumps -/

def dump (m : List Bytes) : Bytes := (rule :: m.map line).flatMap (· ++ [10])

theorem readDump_dump (m : List Bytes) : readDump (dump m) = m := by
  have hlines : ∀ l ∈ rule :: m.map line, 10 ∉ l := by
    intro l hl hnewline
    have hprint : Printable l := by
      rcases List.mem_cons.mp hl with rfl | hl
      · simp [Printable, rule]
      · obtain ⟨data, -, rfl⟩ := List.mem_map.mp hl
        exact printable_line data
    exact absurd (hprint 10 hnewline).1 (by decide)
  rw [readDump, dump, splitOn_lines hlines, List.cons_append, List.tail_cons,
    List.dropLast_concat, List.map_map]
  refine (List.map_congr_left ?_).trans (List.map_id m)
  intro data _
  exact readLine_line data

/-- No part that can be received is longer than an `int` tells. -/
def Short (results : List (Option Part)) : Prop :=
  ∀ p, some p ∈ results → p.1.length < 2 ^ 31

theorem dumpParts_cons {data : Bytes} (h : data.length < 2 ^ 31) (more : Bool)
    (rest : List (Option Part)) :
    dumpParts (some (data, more) :: rest) =
      if more then (line data ++ [10] ++ (dumpParts rest).1, (dumpParts rest).2)
      else (line data ++ [10], .returns rest) := by
  have hsize : ¬ toInt data.length < 0 := by
    rw [toInt_natCast h]
    omega
  rw [dumpParts, if_neg hsize, dumpLine_eq h]

theorem dumpParts_frame {m : List Bytes} (hm : m ≠ []) (hlen : ∀ p ∈ m, p.length < 2 ^ 31)
    (rest : List (Option Part)) :
    dumpParts ((frame m).map some ++ rest) = (m.flatMap (line · ++ [10]), .returns rest) := by
  induction m with
  | nil => exact (hm rfl).elim
  | cons data m ih =>
      have hdata := hlen data List.mem_cons_self
      cases m with
      | nil => simp [dumpParts_cons hdata]
      | cons next m =>
          have hrest := ih (by simp) fun p hp => hlen p (List.mem_cons_of_mem _ hp)
          rw [frame_cons_cons, List.map_cons, List.cons_append, dumpParts_cons hdata, if_pos rfl,
            hrest]
          rfl

/-- The loop only returns behind the last part of a message. -/
theorem exists_frame_of_returns {results rest : List (Option Part)} (hshort : Short results)
    (h : (dumpParts results).2 = .returns rest) :
    ∃ m, m ≠ [] ∧ results = (frame m).map some ++ rest := by
  induction results with
  | nil => cases h
  | cons r results ih =>
      cases r with
      | none => cases h
      | some p =>
          obtain ⟨data, more⟩ := p
          rw [dumpParts_cons (hshort _ List.mem_cons_self)] at h
          cases more with
          | true =>
              obtain ⟨m, hm, rfl⟩ := ih (fun p hp => hshort p (List.mem_cons_of_mem _ hp)) h
              obtain ⟨next, m, rfl⟩ := List.exists_cons_of_ne_nil hm
              exact ⟨data :: next :: m, by simp, by simp⟩
          | false =>
              cases h
              exact ⟨[data], by simp, by simp⟩

theorem short_of_frame {m : List Bytes} {rest : List (Option Part)}
    (h : Short ((frame m).map some ++ rest)) : ∀ p ∈ m, p.length < 2 ^ 31 := by
  intro p hp
  rw [← map_fst_frame m] at hp
  obtain ⟨q, hq, rfl⟩ := List.mem_map.mp hp
  exact h q (List.mem_append_left _ (List.mem_map_of_mem hq))

theorem sDump_frame {m : List Bytes} (hm : m ≠ []) (hlen : ∀ p ∈ m, p.length < 2 ^ 31)
    (rest : List (Option Part)) :
    sDump ((frame m).map some ++ rest) = (dump m, .returns rest) := by
  rw [sDump, dumpParts_frame hm hlen, dump, List.flatMap_cons, List.flatMap_map]

theorem printable_dump (m : List Bytes) : ∀ c ∈ dump m, c = 10 ∨ 32 ≤ c ∧ c ≤ 126 := by
  intro c hc
  obtain ⟨l, hl, hc⟩ := List.mem_flatMap.mp hc
  rcases List.mem_append.mp hc with hc | hc
  · refine Or.inr ?_
    rcases List.mem_cons.mp hl with rfl | hl
    · obtain rfl := List.eq_of_mem_replicate hc
      decide
    · obtain ⟨data, -, rfl⟩ := List.mem_map.mp hl
      exact printable_line data c hc
  · exact Or.inl (List.mem_singleton.mp hc)

/-- The `float` that a number that is not negative converts to. -/
def toFloat (n : ℕ) : ℕ := Rounding.round 24 n

def randMax : ℕ := 2 ^ 31 - 1

/-- What `randof (num)` converts to an `int`: the product is a `float`, and
its quotient by `RAND_MAX + 1.0` is exact. The `int` drops the fraction. -/
def scaled (num r : ℕ) : ℕ := toFloat (toFloat num * toFloat r) / (randMax + 1)

/-- `randof (num)` for an `int` and the result `r` of `random`. The
conversion to `int` overflows where there is no result. -/
def randof (num r : ℕ) : Option ℕ := if scaled num r < 2 ^ 31 then some (scaled num r) else none

/-- `"%04X-%04X"`. -/
def identityText (r₁ r₂ : ℕ) : Option Bytes := do
  let first ← randof 0x10000 r₁
  let second ← randof 0x10000 r₂
  return numeral 16 4 first ++ [45] ++ numeral 16 4 second

/-- The identity that is set, if it fits the buffer with its terminator. -/
def sSetId (r₁ r₂ : ℕ) : Option Bytes := do
  let identity ← identityText r₁ r₂
  if identity.length + 1 ≤ 10 then some identity else none

/-- The last 64 numbers that `random` returns round up. -/
theorem toFloat_of_high {r : ℕ} (hlow : 2 ^ 31 - 64 ≤ r) (hr : r ≤ randMax) :
    toFloat r = 2 ^ 31 := by
  have hsize : r.size = 31 := by
    have hle : r.size ≤ 31 := Nat.size_le.mpr (Nat.lt_succ_of_le hr)
    have hlt : 30 < r.size := Nat.lt_size.mpr (by omega)
    omega
  have hulp : Rounding.ulp 24 r = 128 := by simp [Rounding.ulp, hsize]
  unfold randMax at hr
  rw [toFloat, Rounding.round, hulp, if_neg (by omega)]
  omega

theorem toFloat_of_low {r : ℕ} (hr : r < 2 ^ 31 - 64) : toFloat r ≤ 2 ^ 31 - 128 := by
  have hle := Rounding.two_mul_round_le 24 r
  have hdvd := Rounding.dvd_round 24 r
  by_cases hsize : r.size ≤ 30
  · have hlt : r < 2 ^ 30 := Nat.size_le.mp hsize
    have hulp : Rounding.ulp 24 r ≤ 2 ^ 6 := Nat.pow_le_pow_right (by decide) (by omega)
    unfold toFloat
    omega
  · have hsize' : r.size = 31 := by
      have hle : r.size ≤ 31 := Nat.size_le.mpr (by omega)
      omega
    have hulp : Rounding.ulp 24 r = 128 := by simp [Rounding.ulp, hsize']
    rw [hulp] at hle hdvd
    unfold toFloat
    omega

theorem scaled_of_high {num r : ℕ} (hnum : toFloat num = num) (hlow : 2 ^ 31 - 64 ≤ r)
    (hr : r ≤ randMax) : scaled num r = num := by
  have hexact : toFloat (num * 2 ^ 31) = num * 2 ^ 31 := Rounding.round_mul_two_pow hnum 31
  rw [scaled, hnum, toFloat_of_high hlow hr, hexact]
  exact Nat.mul_div_cancel num (Nat.two_pow_pos 31)

/-- The product is far enough from `num * 2 ^ 31` not to round up to it. -/
theorem scaled_of_low {num r : ℕ} (hpos : 0 < num) (hnum : toFloat num = num)
    (hr : r < 2 ^ 31 - 64) : scaled num r < num := by
  have hproduct : num * toFloat r ≤ num * (2 ^ 31 - 128) :=
    Nat.mul_le_mul_left num (toFloat_of_low hr)
  have hle := Rounding.two_mul_round_le 24 (num * toFloat r)
  have hlt : toFloat (num * toFloat r) < num * 2 ^ 31 := by
    by_cases hsize : 24 ≤ (num * toFloat r).size
    · have hulp := Rounding.ulp_mul_le (by decide) hsize
      unfold toFloat at *
      omega
    · have hulp : Rounding.ulp 24 (num * toFloat r) = 1 := by
        rw [Rounding.ulp, Nat.sub_eq_zero_of_le (by omega), Nat.pow_zero]
      unfold toFloat at *
      omega
  rw [scaled, hnum]
  exact (Nat.div_lt_iff_lt_mul (Nat.two_pow_pos 31)).mpr hlt

theorem scaled_le {num r : ℕ} (hpos : 0 < num) (hnum : toFloat num = num) (hr : r ≤ randMax) :
    scaled num r ≤ num := by
  by_cases hlow : r < 2 ^ 31 - 64
  · exact Nat.le_of_lt (scaled_of_low hpos hnum hlow)
  · exact Nat.le_of_eq (scaled_of_high hnum (Nat.le_of_not_lt hlow) hr)

theorem randof_eq_scaled {num r : ℕ} (hpos : 0 < num) (hint : num < 2 ^ 31)
    (hnum : toFloat num = num) (hr : r ≤ randMax) : randof num r = some (scaled num r) :=
  if_pos (Nat.lt_of_le_of_lt (scaled_le hpos hnum hr) hint)

/-- For an `int` that a `float` holds the conversion to `int` does not
overflow, and `randof (num)` is below `num`, as its comment says, except for
the last 64 results of `random`; there it is `num`. -/
theorem randof_lt_iff {num r : ℕ} (hpos : 0 < num) (hint : num < 2 ^ 31)
    (hnum : toFloat num = num) (hr : r ≤ randMax) :
    ∃ v, randof num r = some v ∧ v ≤ num ∧ (v < num ↔ r < 2 ^ 31 - 64) := by
  refine ⟨scaled num r, randof_eq_scaled hpos hint hnum hr, scaled_le hpos hnum hr, ?_⟩
  by_cases hlow : r < 2 ^ 31 - 64
  · exact iff_of_true (scaled_of_low hpos hnum hlow) hlow
  · rw [scaled_of_high hnum (Nat.le_of_not_lt hlow) hr]
    exact iff_of_false (Nat.lt_irrefl num) hlow

theorem toFloat_0x10000 : toFloat 0x10000 = 0x10000 := by
  have hone : toFloat 1 = 1 := Rounding.round_eq_self_iff.mpr (by simp [Rounding.ulp])
  exact Rounding.round_mul_two_pow hone 16

theorem randof_lt_iff_last : ∃ v, randof 0x10000 randMax = some v ∧ v ≤ 0x10000 ∧
    (v < 0x10000 ↔ randMax < 2 ^ 31 - 64) :=
  randof_lt_iff (by decide) (by decide) toFloat_0x10000 (Nat.le_refl _)

theorem randof_0x10000 {r : ℕ} (hr : r ≤ randMax) :
    randof 0x10000 r = some (scaled 0x10000 r) :=
  randof_eq_scaled (by decide) (by decide) toFloat_0x10000 hr

theorem length_identity {r : ℕ} (hr : r ≤ randMax) :
    (numeral 16 4 (scaled 0x10000 r)).length = if r < 2 ^ 31 - 64 then 4 else 5 := by
  split
  · next hlow =>
      exact length_numeral (by decide) (scaled_of_low (by decide) toFloat_0x10000 hlow)
  · next hhigh =>
      rw [scaled_of_high toFloat_0x10000 (Nat.le_of_not_lt hhigh) hr]
      simp [numeral, Nat.digitsAppend]

theorem sSetId_eq_some_iff {r₁ r₂ : ℕ} (h₁ : r₁ ≤ randMax) (h₂ : r₂ ≤ randMax)
    {identity : Bytes} : sSetId r₁ r₂ = some identity ↔
      identity = numeral 16 4 (scaled 0x10000 r₁) ++ [45] ++ numeral 16 4 (scaled 0x10000 r₂) ∧
        r₁ < 2 ^ 31 - 64 ∧ r₂ < 2 ^ 31 - 64 := by
  have htext : identityText r₁ r₂ =
      some (numeral 16 4 (scaled 0x10000 r₁) ++ [45] ++ numeral 16 4 (scaled 0x10000 r₂)) := by
    rw [identityText, randof_0x10000 h₁, randof_0x10000 h₂]
    rfl
  have hlength : (numeral 16 4 (scaled 0x10000 r₁) ++ [45] ++
      numeral 16 4 (scaled 0x10000 r₂)).length + 1 ≤ 10 ↔ r₁ < 2 ^ 31 - 64 ∧ r₂ < 2 ^ 31 - 64 := by
    rw [List.length_append, List.length_append, length_identity h₁, length_identity h₂,
      List.length_singleton]
    split <;> split <;> omega
  rw [sSetId, htext, Option.bind_eq_bind, Option.bind_some, Option.ite_none_right_eq_some, hlength,
    Option.some.injEq, and_comm, eq_comm]

/-- `s_set_id` stays in its buffer exactly when none of its two draws is one
of the last 64; the identity then has nine characters that read back as the
two numbers drawn. -/
theorem sSetId_fits_iff {r₁ r₂ : ℕ} (h₁ : r₁ ≤ randMax) (h₂ : r₂ ≤ randMax) :
    ((sSetId r₁ r₂).isSome ↔ r₁ < 2 ^ 31 - 64 ∧ r₂ < 2 ^ 31 - 64) ∧
      ∀ identity, sSetId r₁ r₂ = some identity → identity.length = 9 ∧
        some (parse 16 (identity.take 4)) = randof 0x10000 r₁ ∧
        some (parse 16 (identity.drop 5)) = randof 0x10000 r₂ := by
  constructor
  · simp [Option.isSome_iff_exists, sSetId_eq_some_iff h₁ h₂]
  · intro identity hset
    obtain ⟨rfl, hlow₁, hlow₂⟩ := (sSetId_eq_some_iff h₁ h₂).mp hset
    have hlength₁ := length_identity h₁
    have hlength₂ := length_identity h₂
    rw [if_pos hlow₁] at hlength₁
    rw [if_pos hlow₂] at hlength₂
    refine ⟨by simp [hlength₁, hlength₂], ?_, ?_⟩
    · rw [randof_0x10000 h₁, List.append_assoc, List.take_left' hlength₁,
        parse_numeral (by decide) (by decide)]
    · rw [randof_0x10000 h₂, List.drop_left' (by simp [hlength₁]),
        parse_numeral (by decide) (by decide)]

theorem sSetId_fits_iff_last : (sSetId 0 randMax).isSome = false := by
  have h := (sSetId_fits_iff (Nat.zero_le _) (Nat.le_refl randMax)).1
  have hhigh : ¬ ((0 : ℕ) < 2 ^ 31 - 64 ∧ randMax < 2 ^ 31 - 64) := by decide
  exact Bool.eq_false_iff.mpr (mt h.mp hhigh)

end ZeromqAgent.Zhelpers
