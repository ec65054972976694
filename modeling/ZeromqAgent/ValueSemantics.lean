import ZeromqAgent.Messages
import Mathlib.Data.List.Perm.Basic

/-!
# Messages as values

A message obtained from a string by constructions, assignments, swaps and
clones is to read that string as long as it is there. Copies share the
storage of the first of them, so that they read it until the first
destructor that finds its flag set; a clone has no storage at all, and
after an assignment nothing is defined.
-/

namespace ZeromqAgent.Messages

open Transition Handles Storage

/-- The size is that of the string, and the storage is there and holds it. -/
def Object.Holds (o : Object) (heap : Heap) : Prop :=
  ∀ v ∈ o.value, o.message.getSize = v.length ∧ o.message.bytes heap = some v

def Holding (heap : Heap) (objects : List Object) : Prop := ∀ o ∈ objects, o.Holds heap

def Reads (s : State) : Prop := s.undefined = false ∧ Holding s.heap s.objects

/-- No object that holds a string lies at this address. -/
def Unread (objects : List Object) (a : Addr) : Prop :=
  ∀ o ∈ objects, o.value ≠ none → o.message.getData ≠ a

/-- Strings fit an `int`, only an object that holds no string is cloned,
nothing is assigned, and what a destructor releases is not the storage of a
string that another object holds. -/
def Kept (s : State) : Operation → Prop
  | .construct k => k.Short
  | .clone i => ∀ o ∈ s.objects[i]?, o.value = none
  | .assign _ _ => False
  | .destroy i => ∀ p ∈ s.send? i, p.1.isAllocated → Unread (s.objects.eraseIdx i) p.1.data
  | .swap _ _ | .setData _ _ | .setSize _ _ => True

/-! ## Storage that is released or allocated -/

theorem Object.Holds.congr {o : Object} {heap heap' : Heap} (h : o.Holds heap)
    (heq : o.value ≠ none → heap' o.message.getData = heap o.message.getData) :
    o.Holds heap' := by
  intro v hv
  obtain ⟨hsize, hbytes⟩ := h v hv
  have heq := heq (by rw [Option.mem_def.mp hv]; exact Option.some_ne_none v)
  exact ⟨hsize, (read_congr heq _).trans hbytes⟩

theorem Object.Holds.allocated {o : Object} {heap : Heap} (h : o.Holds heap)
    (hv : o.value ≠ none) : heap o.message.getData ≠ none := by
  obtain ⟨v, hv⟩ := Option.ne_none_iff_exists'.mp hv
  intro hnone
  have hbytes := (h v hv).2
  simp [IMessage.bytes, Storage.read, hnone] at hbytes

/-- Releasing a block leaves the reads of those objects that do not lie there. -/
theorem holding_release {heap : Heap} {objects : List Object} (h : Holding heap objects)
    (a : Addr) : Holding (release heap a) objects ↔ Unread objects a := by
  constructor
  · intro h' o ho hv heq
    apply (h' o ho).allocated hv
    rw [heq]
    exact Function.update_self a none heap
  · intro hunread o ho
    apply (h o ho).congr
    intro hv
    exact Function.update_of_ne (hunread o ho hv) _ _

theorem holding_destroy {heap : Heap} {objects : List Object} (h : Holding heap objects)
    (m : SendMessage) :
    Holding (m.destroy heap) objects ↔ (m.isAllocated → Unread objects m.data) := by
  unfold SendMessage.destroy
  cases m.isAllocated with
  | false => simpa using h
  | true => simpa using holding_release h m.data

theorem holding_put {heap : Heap} {objects : List Object} (h : Holding heap objects) {a : Addr}
    (ha : heap a = none) (block : Bytes) : Holding (put heap a block) objects := by
  intro o ho
  apply (h o ho).congr
  intro hv
  have hne : o.message.getData ≠ a := by
    intro heq
    exact (h o ho).allocated hv (heq ▸ ha)
  exact Function.update_of_ne hne _ _

theorem holding_perm {heap : Heap} {xs ys : List Object} (h : xs.Perm ys) :
    Holding heap xs ↔ Holding heap ys :=
  forall_congr' fun _ => imp_congr_left h.mem_iff

theorem holding_cons {heap : Heap} {o : Object} {objects : List Object} :
    Holding heap (o :: objects) ↔ o.Holds heap ∧ Holding heap objects := List.forall_mem_cons

theorem holding_snoc {heap : Heap} {o : Object} {objects : List Object} :
    Holding heap (objects ++ [o]) ↔ Holding heap objects ∧ o.Holds heap := by
  rw [Holding, List.forall_mem_append, List.forall_mem_singleton]
  rfl

theorem holding_set {heap : Heap} {objects : List Object} {i : ℕ} {o o' : Object}
    (h : objects[i]? = some o) :
    Holding heap (objects.set i o') ↔ Holding heap (o' :: objects.eraseIdx i) :=
  holding_perm (List.set_perm_cons_eraseIdx (List.getElem?_eq_some_iff.mp h).1 o')

theorem holding_eraseIdx {heap : Heap} {objects : List Object} (h : Holding heap objects)
    (i : ℕ) : Holding heap (objects.eraseIdx i) :=
  fun o ho => h o (List.mem_of_mem_eraseIdx ho)

/-! ## One operation -/

structure Inv (s : State) : Prop where
  null : s.heap 0 = none
  reads : Reads s

theorem holds_of_getElem? {s : State} (hs : Holding s.heap s.objects) {i : ℕ} {o : Object}
    (h : s.objects[i]? = some o) : o.Holds s.heap :=
  hs o (List.mem_of_getElem? h)

/-- A message built from a string reads it when its length fits, and only
then has its size, whatever happens to the storage. -/
theorem holds_ofString {heap heap' : Heap} {a : Addr} {last : UInt8} {message : Bytes}
    {m : SendMessage} (h : SendMessage.ofString heap a last message = some (m, heap')) :
    (message.length < 2 ^ 31 - 1 → (⟨.send m, some message⟩ : Object).Holds heap') ∧
      ∀ later, (⟨.send m, some message⟩ : Object).Holds later →
        message.length < 2 ^ 31 - 1 := by
  constructor
  · intro hshort v hv
    obtain rfl : message = v := Option.some.inj hv
    obtain ⟨hsize, -, hread⟩ := SendMessage.bytes_of_ofString h hshort
    exact ⟨hsize, hread⟩
  · intro later hholds
    exact SendMessage.length_lt_of_ofString h (hholds message rfl).1

theorem build_holds {s : State} (hs : Inv s) {k : Construction} {m : SendMessage}
    {v : Option Bytes} {heap : Heap} (h : s.build k = some (m, v, heap)) :
    heap 0 = none ∧ Holding heap s.objects ∧
      (k.Short → (⟨.send m, v⟩ : Object).Holds heap) ∧
      ∀ later, (⟨.send m, v⟩ : Object).Holds later → k.Short := by
  cases k with
  | string a last message =>
      obtain ⟨⟨ha, hfree⟩, h⟩ := Option.ite_none_right_eq_some.mp h
      obtain ⟨⟨m', heap'⟩, hm, heq⟩ := Option.map_eq_some_iff.mp h
      obtain ⟨rfl, rfl, rfl⟩ : m' = m ∧ some message = v ∧ heap' = heap := by simpa using heq
      obtain ⟨block, hblock⟩ := SendMessage.exists_put_of_ofString hm
      dsimp only at hblock
      refine ⟨?_, ?_, holds_ofString hm⟩
      · rw [hblock]
        exact (Function.update_of_ne ha.symm _ _).trans hs.null
      · rw [hblock]
        exact holding_put hs.reads.2 hfree block
  | pointer start size | default junk =>
      obtain ⟨rfl, rfl, rfl⟩ : _ ∧ none = v ∧ s.heap = heap := by simpa [State.build] using h
      exact ⟨hs.null, hs.reads.2, fun _ => by simp [Object.Holds], fun _ _ => trivial⟩
  | copy i junk | move i junk =>
      obtain ⟨⟨m', v'⟩, hi, heq⟩ := Option.map_eq_some_iff.mp h
      obtain ⟨rfl, rfl, rfl⟩ : _ ∧ v' = v ∧ s.heap = heap := by simpa using heq
      have hholds := holds_of_getElem? hs.reads.2 (send?_eq_some.mp hi)
      exact ⟨hs.null, hs.reads.2, fun _ => hholds, fun _ _ => trivial⟩

theorem destroy_null (m : IMessage) {heap : Heap} (h : heap 0 = none) :
    m.destroy heap 0 = none := by
  cases m with
  | base => exact h
  | send m =>
      change m.destroy heap 0 = none
      unfold SendMessage.destroy
      split
      · by_cases hd : m.data = 0
        · simp [release, hd]
        · simpa [release, Function.update_of_ne (Ne.symm hd)] using h
      · exact h

theorem null_of_perform {s t : State} {op : Operation} (hs : Inv s)
    (hop : ∀ i k, op ≠ .assign i k) (h : s.perform op = some t) : t.heap 0 = none := by
  cases op with
  | construct k =>
      obtain ⟨⟨m, v, heap⟩, hk, rfl⟩ := Option.map_eq_some_iff.mp h
      exact (build_holds hs hk).1
  | clone i =>
      obtain ⟨o, -, rfl⟩ := Option.map_eq_some_iff.mp h
      exact hs.null
  | assign i k => exact absurd rfl (hop i k)
  | swap i j =>
      obtain ⟨m, v, n, w, -, -, rfl⟩ := swap_cases h
      exact hs.null
  | setData i data | setSize i size =>
      obtain ⟨p, -, rfl⟩ := Option.map_eq_some_iff.mp h
      exact hs.null
  | destroy i =>
      obtain ⟨o, -, rfl⟩ := Option.map_eq_some_iff.mp h
      exact destroy_null o.message hs.null

/-- After an operation that is defined the strings are read exactly when it
is kept. -/
theorem holding_of_perform {s t : State} {op : Operation} (hs : Inv s)
    (hop : ∀ i k, op ≠ .assign i k) (h : s.perform op = some t) :
    Holding t.heap t.objects ↔ Kept s op := by
  have hholding := hs.reads.2
  cases op with
  | construct k =>
      obtain ⟨⟨m, v, heap⟩, hk, rfl⟩ := Option.map_eq_some_iff.mp h
      obtain ⟨-, hholding, hnew, hshort⟩ := build_holds hs hk
      exact holding_snoc.trans ((and_iff_right hholding).trans ⟨hshort heap, hnew⟩)
  | clone i =>
      obtain ⟨o, ho, rfl⟩ := Option.map_eq_some_iff.mp h
      simp only [Kept, ho, Option.mem_some_iff, forall_eq']
      refine holding_snoc.trans ((and_iff_right hholding).trans ?_)
      constructor
      · intro hholds
        -- a clone has a null pointer, where nothing is stored
        by_contra hv
        exact hholds.allocated hv hs.null
      · intro hv
        simp [Object.Holds, hv]
  | assign i k => exact absurd rfl (hop i k)
  | swap i j =>
      obtain ⟨m, v, n, w, hi, hj, rfl⟩ := swap_cases h
      refine iff_of_true ?_ trivial
      intro o ho
      rcases List.mem_or_eq_of_mem_set ho with ho | rfl
      · rcases List.mem_or_eq_of_mem_set ho with ho | rfl
        · exact hholding o ho
        · have hread := holds_of_getElem? hholding hj
          exact hread
      · have hread := holds_of_getElem? hholding hi
        exact hread
  | setData i data | setSize i size =>
      obtain ⟨p, hp, rfl⟩ := Option.map_eq_some_iff.mp h
      refine iff_of_true ?_ trivial
      refine (holding_set (send?_eq_some.mp hp)).mpr (holding_cons.mpr ⟨?_, ?_⟩)
      · simp [Object.Holds]
      · exact holding_eraseIdx hholding i
  | destroy i =>
      obtain ⟨⟨m, v⟩, ho, rfl⟩ := Option.map_eq_some_iff.mp h
      have hrest := holding_eraseIdx hholding i
      cases m with
      | base =>
          have hsend : s.send? i = none := by simp [State.send?, ho]
          refine iff_of_true hrest ?_
          simp [Kept, hsend]
      | send m =>
          simp only [Kept, send?_eq_some.mpr ho, Option.mem_some_iff, forall_eq']
          exact holding_destroy hrest m

theorem reads_of_step {s t : State} {op : Operation} (hs : Inv s) (h : step s op = some t) :
    Reads t ↔ Kept s op := by
  rcases step_cases h with ⟨⟨i, k, rfl⟩, htrue⟩ | ⟨hop, hfalse, hperform⟩
  · refine iff_of_false ?_ id
    rintro ⟨hfalse, -⟩
    exact absurd (hfalse.symm.trans htrue) (by decide)
  · exact (and_iff_right hfalse).trans (holding_of_perform hs hop hperform)

/-- An assignment and a destruction leave every other object, and what the
other messages read. -/
def Undisturbed (s t : State) : Operation → Prop
  | .assign i _ | .destroy i =>
      ∀ o ∈ s.objects.eraseIdx i, o ∈ t.objects ∧
        (o.value ≠ none → o.message.bytes t.heap = o.message.bytes s.heap)
  | _ => True

theorem bytes_eq {o : Object} {heap heap' : Heap} (h : o.Holds heap) (h' : o.Holds heap')
    (hv : o.value ≠ none) : o.message.bytes heap' = o.message.bytes heap := by
  obtain ⟨v, hv⟩ := Option.ne_none_iff_exists'.mp hv
  exact (h' v hv).2.trans (h v hv).2.symm

theorem undisturbed_of_step {s t : State} {op : Operation} (hs : Reads s) (ht : Reads t)
    (h : step s op = some t) : Undisturbed s t op := by
  rcases step_cases h with ⟨-, htrue⟩ | ⟨hop, -, h⟩
  · exact absurd (ht.1.symm.trans htrue) (by decide)
  cases op with
  | assign i k => exact absurd rfl (hop i k)
  | destroy i =>
      intro o ho
      have hold := hs.2 o (List.mem_of_mem_eraseIdx ho)
      obtain ⟨p, -, rfl⟩ := Option.map_eq_some_iff.mp h
      exact ⟨ho, fun hv => bytes_eq hold (ht.2 o ho) hv⟩
  | construct k | clone i | swap i j | setData i data | setSize i size => trivial

instance decidableKept : ∀ (s : State) (op : Operation), Decidable (Kept s op)
  | _, .construct k => decidableShort k
  | s, .clone i => inferInstanceAs (Decidable (∀ o ∈ s.objects[i]?, o.value = none))
  | _, .assign _ _ => inferInstanceAs (Decidable False)
  | s, .destroy i =>
      inferInstanceAs (Decidable (∀ p ∈ s.send? i, p.1.isAllocated →
        ∀ o ∈ s.objects.eraseIdx i, o.value ≠ none → o.message.getData ≠ p.1.data))
  | _, .swap _ _ | _, .setData _ _ | _, .setSize _ _ => inferInstanceAs (Decidable True)

/-- Two strings and a copy, a swap, and the end of the copy and of the
object that came to hold the other string. -/
def swapped : List Operation :=
  [.construct (.string 1 0 [7]), .construct (.string 2 0 [8]), .construct (.copy 0 false),
    .swap 0 1, .destroy 2, .destroy 0]

end ZeromqAgent.Messages
