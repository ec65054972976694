import ZeromqAgent.Zhelpers

/-!
# Updates

The benchmark server `wuserver.c` with what its client prints of the
messages. The client receives into one array on its stack, which nothing
initialises and no pass clears or terminates, and prints the array as a
string. The message in the server has no terminator on the wire.
-/

namespace ZeromqAgent.Wuserver

open Framing Zhelpers

/-- `TEST_SIZE`. -/
def testSize : ℕ := 480 * 270 * 4

/-! ## Generated strings -/

/-- `ARRAY`, the letters from `A` to `I` without `C`. -/
def letters : Bytes := [65, 66, 68, 69, 70, 71, 72, 73]

/-- The block and `j` after some passes of the loop. -/
def fill (mem : Bytes) : ℕ → Option (Bytes × ℕ)
  | 0 => some (mem, 0)
  | i + 1 => do
      let (mem, j) ← fill mem i
      let j := if j = 8 then 0 else j
      let c ← letters[j]?
      let mem ← store mem i c
      return (mem, j + 1)

/-- The block that is returned, where no index lies outside of it. -/
def generateString (size : ℤ) : Option Bytes := do
  let (mem, _) ← fill (List.replicate testSize 0) size.toNat
  store mem (size - 1) 0

def letter (i : ℕ) : UInt8 := letters.get ⟨i % 8, Nat.mod_lt i (by decide)⟩

theorem store_append {xs ys : Bytes} {c : UInt8} {i : ℕ} (hi : i = xs.length) (d : UInt8) :
    store (xs ++ c :: ys) i d = some (xs ++ d :: ys) := by
  rw [store, if_pos (by simp [hi]), Int.toNat_natCast, hi,
    List.set_append_right _ _ (Nat.le_refl _), Nat.sub_self, List.set_cons_zero]

/-- The counter `j` follows `i` modulo 8, one reset late. -/
theorem fill_eq {mem : Bytes} {i : ℕ} (hi : i ≤ mem.length) :
    ∃ j, fill mem i = some ((List.range i).map letter ++ mem.drop i, j) ∧
      (if j = 8 then 0 else j) = i % 8 := by
  induction i with
  | zero => exact ⟨0, rfl, rfl⟩
  | succ i ih =>
      obtain ⟨j, hfill, hj⟩ := ih (Nat.le_of_succ_le hi)
      have hletter : letters[i % 8]? = some (letter i) := List.getElem?_eq_getElem _
      have hstore : store ((List.range i).map letter ++ mem.drop i) i (letter i) =
          some ((List.range i).map letter ++ letter i :: mem.drop (i + 1)) := by
        rw [List.drop_eq_getElem_cons hi]
        exact store_append (by simp) _
      refine ⟨i % 8 + 1, ?_, ?_⟩
      · rw [List.range_succ, List.map_append, List.append_assoc]
        simp only [fill, hfill, Option.bind_eq_bind, Option.bind_some, hj, hletter, hstore]
        rfl
      · split <;> omega

theorem fill_eq_none {mem : Bytes} {i : ℕ} (hi : mem.length < i) : fill mem i = none := by
  induction i with
  | zero => cases hi
  | succ i ih =>
      by_cases hlt : mem.length < i
      · simp [fill, ih hlt]
      · have heq : i = mem.length := by omega
        obtain ⟨j, hfill, hj⟩ := fill_eq (Nat.le_of_eq heq)
        have hstore : store ((List.range i).map letter ++ mem.drop i) i (letter i) = none := by
          rw [store, if_neg (by simp [heq])]
        have hletter : letters[i % 8]? = some (letter i) := List.getElem?_eq_getElem _
        simp [fill, hfill, hj, hletter, hstore]

theorem generateString_succ {k : ℕ} (hk : k < testSize) :
    generateString (k + 1) =
      some ((List.range k).map letter ++ List.replicate (testSize - k) 0) := by
  obtain ⟨n, hn⟩ := Nat.exists_eq_add_of_lt hk
  have hle : k + 1 ≤ (List.replicate testSize (0 : UInt8)).length := by
    rw [List.length_replicate]
    exact hk
  obtain ⟨j, hfill, -⟩ := fill_eq hle
  have hsize : ((k : ℤ) + 1).toNat = k + 1 := rfl
  have hindex : (k : ℤ) + 1 - 1 = k := by omega
  have hzeros : testSize - k = n + 1 := by omega
  have hdrop : (List.replicate testSize (0 : UInt8)).drop (k + 1) = List.replicate n 0 := by
    rw [List.drop_replicate]
    congr 1
    omega
  rw [generateString, hsize, hfill, hdrop, hindex, List.range_succ, List.map_append,
    List.append_assoc, hzeros]
  exact store_append (by simp) 0

/-- `generateString` stays in its block exactly for the sizes from 1 to
`TEST_SIZE`; the string then has one character less than the size. -/
theorem generateString_eq_some_iff (size : ℤ) (block : Bytes) :
    generateString size = some block ↔ ∃ k < testSize, size = k + 1 ∧
      block = (List.range k).map letter ++ List.replicate (testSize - k) 0 := by
  constructor
  · intro h
    obtain ⟨⟨mem, j⟩, hfill, hstore⟩ := Option.bind_eq_some_iff.mp h
    have hle : size.toNat ≤ testSize := by
      by_contra hlt
      rw [fill_eq_none (by rw [List.length_replicate]; omega)] at hfill
      cases hfill
    have hpos : 0 ≤ size - 1 := by
      by_contra hneg
      have hnone : store mem (size - 1) 0 = none := by
        rw [store, if_neg fun h => hneg h.1]
      cases hnone.symm.trans hstore
    obtain ⟨k, hk⟩ := Int.eq_ofNat_of_zero_le hpos
    obtain rfl : size = k + 1 := by omega
    have hk : k < testSize := by omega
    rw [generateString_succ hk, Option.some.injEq] at h
    exact ⟨k, hk, rfl, h.symm⟩
  · rintro ⟨k, hk, rfl, rfl⟩
    exact generateString_succ hk

/-! ## Sending and printing -/

/-- `UPDATE_TOKEN`. -/
def updateToken : Bytes :=
  ("\x7b'msg_type' : 'ipc', 'name': 'update_token', " ++
    "'data': \x7b'token': '<token>'\x7d\x7d").toUTF8.data.toList

def token : CString := ⟨updateToken, by decide⟩

/-- The queue of the publisher after some sends, each a message of its own. -/
def publish (strings : List CString) : List Part :=
  strings.foldl (fun queue string => (sSend queue string none).2) []

/-- The passes of the server. -/
def updates (n : ℕ) : List CString := List.replicate n token

/-- `printf ("%s", buffer)` for an array; without a terminator in the array
it reads on behind it. -/
def printed (buffer : Bytes) : Option Bytes :=
  if 0 ∈ buffer then some (buffer.takeWhile (· ≠ 0)) else none

/-- What the passes of the client print. -/
def display (buffer : Bytes) : List Bytes → List (Option Bytes)
  | [] => []
  | part :: parts =>
      let buffer := (zmqRecv buffer testSize part).1
      printed buffer :: display buffer parts

theorem length_zmqRecv {buffer : Bytes} {n : ℕ} (h : buffer.length = n) (part : Bytes) :
    (zmqRecv buffer n part).1.length = n := by
  simp [zmqRecv, h]

/-- A receive leaves what stands behind the part. -/
theorem getElem?_zmqRecv (buffer : Bytes) (n : ℕ) (part : Bytes) (i : ℕ) :
    (zmqRecv buffer n part).1[i]? = if i < min n part.length then part[i]? else buffer[i]? := by
  rw [zmqRecv, List.getElem?_append, List.length_take]
  split
  · next hlt => rw [List.getElem?_take_of_lt (by omega)]
  · next hge =>
      rw [List.getElem?_drop]
      congr 1
      omega

theorem printed_terminated (string : CString) (junk : Bytes) :
    printed (string.val ++ 0 :: junk) = some string.val := by
  rw [printed, if_pos (by simp), takeWhile_terminated, takeWhile_string]

theorem printed_eq_some_iff {buffer : Bytes} {string : CString} :
    printed buffer = some string.val ↔ ∃ junk, buffer = string.val ++ 0 :: junk := by
  constructor
  · intro h
    have hmem : 0 ∈ buffer := by
      by_contra hmem
      rw [printed, if_neg hmem] at h
      cases h
    obtain ⟨xs, junk, rfl, hxs⟩ := List.eq_append_cons_of_mem hmem
    rw [printed_terminated ⟨xs, hxs⟩ junk, Option.some.injEq] at h
    exact ⟨junk, by rw [← h]⟩
  · rintro ⟨junk, rfl⟩
    exact printed_terminated string junk

theorem getElem?_string_ne (string : CString) (i : ℕ) : string.val[i]? ≠ some 0 := by
  intro h
  exact string.property (List.mem_of_getElem? h)

/-- A pass prints the string it received if the array holds a terminator
behind it from before. -/
theorem printed_zmqRecv {buffer : Bytes} {n : ℕ} (h : buffer.length = n) (string : CString) :
    printed (zmqRecv buffer n string.val).1 = some string.val ↔
      buffer[string.val.length]? = some 0 := by
  rw [printed_eq_some_iff]
  constructor
  · rintro ⟨junk, heq⟩
    have hzero := getElem?_zmqRecv buffer n string.val string.val.length
    rw [heq, if_neg (by omega)] at hzero
    simpa using hzero.symm
  · intro hzero
    obtain ⟨hlt, hget⟩ := List.getElem?_eq_some_iff.mp hzero
    refine ⟨buffer.drop (string.val.length + 1), ?_⟩
    rw [zmqRecv, List.take_of_length_le (by omega), Nat.min_eq_right (by omega),
      List.drop_eq_getElem_cons hlt, hget]

/-- A longer string from before leaves its own byte in place of the terminator. -/
theorem zero_behind_iff {buffer : Bytes} {n : ℕ} (h : buffer.length = n) (s t : CString) :
    (zmqRecv buffer n s.val).1[t.val.length]? = some 0 ↔
      s.val.length ≤ t.val.length ∧ buffer[t.val.length]? = some 0 := by
  rw [getElem?_zmqRecv]
  split
  · next hlt =>
      have hne := getElem?_string_ne s t.val.length
      exact iff_of_false hne fun hle => by omega
  · next hge =>
      refine (and_iff_right_of_imp ?_).symm
      intro hzero
      obtain ⟨hlt, -⟩ := List.getElem?_eq_some_iff.mp hzero
      omega

theorem display_eq_iff {buffer : Bytes} (h : buffer.length = testSize) (strings : List CString) :
    display buffer (strings.map (·.val)) = strings.map (fun s => some s.val) ↔
      strings.Pairwise (fun s t => s.val.length ≤ t.val.length) ∧
        ∀ s ∈ strings, buffer[s.val.length]? = some 0 := by
  induction strings generalizing buffer with
  | nil => simp [display]
  | cons s strings ih =>
      have hrest := ih (length_zmqRecv h s.val)
      simp only [zero_behind_iff h, forall_and] at hrest
      rw [List.map_cons, display, List.map_cons, List.cons.injEq, printed_zmqRecv h, hrest,
        List.pairwise_cons, List.forall_mem_cons]
      tauto

theorem map_fst_publish (strings : List CString) :
    (publish strings).map Prod.fst = strings.map (·.val) := by
  induction strings using List.reverseRecOn with
  | nil => rfl
  | append_singleton strings s ih =>
      rw [List.map_append, ← ih, publish, List.foldl_append, List.foldl_cons, List.foldl_nil,
        ← publish]
      simp [sSend, zmqSend]

/-- The array of the client. -/
abbrev Stack := { bytes : Bytes // bytes.length = testSize }

/-- The client prints every string as it was sent exactly when no string is
shorter than one before it and the byte behind each string was 0 from the
start. -/
theorem displayed_iff (buffer : Stack) (strings : List CString) :
    display buffer.val ((publish strings).map Prod.fst) = strings.map (fun s => some s.val) ↔
      strings.Pairwise (fun s t => s.val.length ≤ t.val.length) ∧
        ∀ s ∈ strings, buffer.val[s.val.length]? = some 0 := by
  rw [map_fst_publish, display_eq_iff buffer.property]

/-- The server's own message comes out right, each time or never, as the
byte behind it is 0 or not before the first pass. -/
theorem updates_displayed_iff (buffer : Stack) {n : ℕ} (hn : n ≠ 0) :
    display buffer.val ((publish (updates n)).map Prod.fst) =
        List.replicate n (some updateToken) ↔
      buffer.val[updateToken.length]? = some 0 := by
  have hall := display_eq_iff buffer.property (updates n)
  rw [updates, List.map_replicate, List.map_replicate] at hall
  rw [map_fst_publish, updates, List.map_replicate]
  simpa [hn, token, List.pairwise_replicate] using hall

end ZeromqAgent.Wuserver
