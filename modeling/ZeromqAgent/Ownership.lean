import ZeromqAgent.ClientServer
import ZeromqAgent.Messages
import Mathlib.Data.List.Perm.Basic

/-!
# Who releases a buffer

Each buffer of the constructor from a string is to be released once, by
the destructor of one object. The objects that are there owe the releases
of their destructors; the storage is in order when the releases owed are
those of the buffers allocated and not yet released.
-/

namespace ZeromqAgent.Messages

open Transition Handles

def owed (objects : List Object) : List Addr := objects.flatMap fun o => o.message.released

def Balanced (s : State) : Prop := s.undefined = false ∧ Leaves s.trace (owed s.objects)

/-- When the objects that are left are destroyed now, every buffer has been
released once and nothing else has been released. -/
def Settled (s : State) : Prop :=
  s.undefined = false ∧ ∃ t, run step s (List.replicate s.objects.length (.destroy 0)) = some t ∧
    (audit (t.trace ++ [.finish])).isSome

/-- The flags of the objects fit their pointers after the operation. A copy
must not find its flag set, or there is nothing to release; two objects that
are swapped must have equal flags, or equal pointers; a pointer is not set
in an object whose flag is set. No assignment fits. -/
def Owns (s : State) : Operation → Prop
  | .construct k =>
      k.acquired = [] → ∀ p ∈ s.build k, p.1.isAllocated → p.1.data = 0
  | .assign _ _ => False
  | .swap i j =>
      ∀ p ∈ s.send? i, ∀ q ∈ s.send? j,
        p.1.isAllocated = q.1.isAllocated ∨ p.1.data = q.1.data
  | .setData i data => ∀ p ∈ s.send? i, p.1.isAllocated → data = p.1.data
  | .clone _ | .setSize _ _ | .destroy _ => True

/-! ## What the objects owe -/

theorem owed_append (xs ys : List Object) : owed (xs ++ ys) = owed xs ++ owed ys :=
  List.flatMap_append

theorem owed_singleton (o : Object) : owed [o] = o.message.released := by simp [owed]

theorem owed_eraseIdx {objects : List Object} {i : ℕ} {o : Object} (h : objects[i]? = some o) :
    (o.message.released ++ owed (objects.eraseIdx i)).Perm (owed objects) := by
  obtain ⟨hlt, rfl⟩ := List.getElem?_eq_some_iff.mp h
  exact (List.getElem_cons_eraseIdx_perm hlt).flatMap_right fun o : Object => o.message.released

theorem owed_set {objects : List Object} {i : ℕ} {o : Object} (h : objects[i]? = some o)
    (o' : Object) :
    (owed (objects.set i o') ++ o.message.released).Perm
      (owed objects ++ o'.message.released) := by
  have hlt : i < objects.length := (List.getElem?_eq_some_iff.mp h).1
  have hset : (owed (objects.set i o')).Perm
      (o'.message.released ++ owed (objects.eraseIdx i)) :=
    (List.set_perm_cons_eraseIdx hlt o').flatMap_right fun o : Object => o.message.released
  have hget := owed_eraseIdx h
  rw [List.perm_iff_count] at *
  intro a
  have hset := hset a
  have hget := hget a
  simp only [List.count_append] at *
  omega

/-- Exchanging what two lists differ in. -/
theorem perm_iff_of_perm {xs ys ps qs : List Addr} (h : (xs ++ ps).Perm (ys ++ qs)) :
    xs.Perm ys ↔ qs.Perm ps := by
  simp only [List.perm_iff_count, List.count_append] at *
  constructor
  · intro h' x
    have h := h x
    have h' := h' x
    omega
  · intro h' x
    have h := h x
    have h' := h' x
    omega

/-! ## One operation -/

theorem released_eq (m : SendMessage) :
    m.released = if m.isAllocated ∧ m.data ≠ 0 then [m.data] else [] := rfl

theorem build_string {s : State} {a : Addr} {last : UInt8} {message : Bytes}
    {p : SendMessage × Option Bytes × Heap} (h : s.build (.string a last message) = some p) :
    a ≠ 0 ∧ p.1.isAllocated = true ∧ p.1.data = a := by
  obtain ⟨ha, h⟩ := Option.ite_none_right_eq_some.mp h
  obtain ⟨q, hq, rfl⟩ := Option.map_eq_some_iff.mp h
  obtain ⟨-, hq⟩ := SendMessage.ofString_eq_some.mp hq
  rw [hq]
  exact ⟨ha.1, rfl, rfl⟩

/-- A construction keeps the balance when the new object owes just what was
allocated for it. -/
theorem released_build {s : State} {k : Construction} {p : SendMessage × Option Bytes × Heap}
    (h : s.build k = some p) :
    p.1.released.Perm k.acquired ↔ k.acquired = [] → p.1.isAllocated → p.1.data = 0 := by
  cases k with
  | string a last message =>
      obtain ⟨ha, hflag, hdata⟩ := build_string h
      simp [released_eq, Construction.acquired, ha, hflag, hdata]
  | pointer start size | default junk | copy i junk | move i junk =>
      simp [released_eq, Construction.acquired, List.perm_nil]

/-- Replacing one object by another that owes as much. -/
theorem owed_set_perm {objects : List Object} {i : ℕ} {o : Object} (h : objects[i]? = some o)
    (o' : Object) :
    (owed (objects.set i o')).Perm (owed objects) ↔
      o'.message.released.Perm o.message.released :=
  perm_iff_of_perm (owed_set h o')

theorem released_setData (m : SendMessage) (data : Addr) :
    (m.setData data).released.Perm m.released ↔ (m.isAllocated → data = m.data) := by
  simp only [released_eq, SendMessage.setData]
  cases m.isAllocated with
  | false => simp
  | true =>
      by_cases hd : data = 0
      · by_cases hm : m.data = 0
        · simp [hd, hm]
        · simp [hd, hm, Ne.symm hm]
      · by_cases hm : m.data = 0
        · simp [hd, hm, List.perm_nil]
        · simp [hd, hm]

theorem owed_swap {s : State} {i j : ℕ} {m n : SendMessage} {v w : Option Bytes}
    (hi : s.objects[i]? = some ⟨.send m, v⟩) (hj : s.objects[j]? = some ⟨.send n, w⟩) :
    (owed ((s.set i (m.swap n).1 w).set j (m.swap n).2 v).objects).Perm (owed s.objects) ↔
      Owns s (.swap i j) := by
  simp only [Owns, send?_eq_some.mpr hi, send?_eq_some.mpr hj, Option.mem_some_iff, forall_eq',
    State.set]
  by_cases hij : i = j
  · subst hij
    obtain ⟨rfl, rfl⟩ : m = n ∧ v = w := by simpa [hi] using hj
    obtain ⟨hlt, hget⟩ := List.getElem?_eq_some_iff.mp hi
    have hsame : (s.objects.set i ⟨.send m, v⟩).set i ⟨.send m, v⟩ = s.objects := by
      rw [List.set_set, ← hget]
      exact List.set_getElem_self hlt
    simp [SendMessage.swap, hsame]
  · have hj' : (s.objects.set i ⟨.send (m.swap n).1, w⟩)[j]? = some ⟨.send n, w⟩ := by
      rw [List.getElem?_set_ne hij]
      exact hj
    have hfirst := owed_set hi ⟨.send (m.swap n).1, w⟩
    have hboth := owed_set hj' ⟨.send (m.swap n).2, v⟩
    have hall : (owed ((s.objects.set i ⟨.send (m.swap n).1, w⟩).set j
        ⟨.send (m.swap n).2, v⟩) ++ (n.released ++ m.released)).Perm
        (owed s.objects ++ ((m.swap n).1.released ++ (m.swap n).2.released)) := by
      simp only [List.perm_iff_count, List.count_append, IMessage.released] at *
      intro a
      have hfirst := hfirst a
      have hboth := hboth a
      omega
    refine (perm_iff_of_perm hall).trans ?_
    simp only [SendMessage.swap, released_eq]
    generalize n.data = there
    generalize m.data = here
    cases n.isAllocated <;> cases m.isAllocated <;>
      by_cases ht : there = 0 <;> by_cases hh : here = 0 <;>
      simp [ht, hh, List.perm_nil, eq_comm]

/-- An operation that is defined keeps the balance exactly when it fits. -/
theorem leaves_of_perform {s t : State} {op : Operation} (hs : Leaves s.trace (owed s.objects))
    (hop : ∀ i k, op ≠ .assign i k) (h : s.perform op = some t) :
    Leaves t.trace (owed t.objects) ↔ Owns s op := by
  cases op with
  | construct k =>
      obtain ⟨⟨m, v, heap⟩, hk, rfl⟩ := Option.map_eq_some_iff.mp h
      simp only [Owns, hk, Option.mem_some_iff, forall_eq']
      refine Iff.trans ?_ (released_build hk)
      refine (hs.acquires k.acquired).perm_iff.trans ?_
      rw [owed_append, owed_singleton]
      have hcomm : (k.acquired ++ owed s.objects).Perm (owed s.objects ++ k.acquired) :=
        List.perm_append_comm
      exact (List.Perm.congr_right hcomm _).trans (List.perm_append_left_iff _)
  | clone i =>
      obtain ⟨o, ho, rfl⟩ := Option.map_eq_some_iff.mp h
      refine iff_of_true ?_ trivial
      simpa [owed_append, owed_singleton, IMessage.clone, IMessage.released] using hs
  | assign i k => exact absurd rfl (hop i k)
  | swap i j =>
      obtain ⟨m, v, n, w, hi, hj, rfl⟩ := swap_cases h
      exact hs.perm_iff.trans (owed_swap hi hj)
  | setData i data =>
      obtain ⟨⟨m, v⟩, hi, rfl⟩ := Option.map_eq_some_iff.mp h
      simp only [Owns, hi, Option.mem_some_iff, forall_eq']
      refine hs.perm_iff.trans ((owed_set_perm (send?_eq_some.mp hi) _).trans ?_)
      exact released_setData m data
  | setSize i size =>
      obtain ⟨⟨m, v⟩, hi, rfl⟩ := Option.map_eq_some_iff.mp h
      refine iff_of_true (hs.perm_iff.mpr ((owed_set_perm (send?_eq_some.mp hi) _).mpr ?_)) trivial
      exact List.Perm.refl _
  | destroy i =>
      obtain ⟨o, ho, rfl⟩ := Option.map_eq_some_iff.mp h
      refine iff_of_true ?_ trivial
      exact leaves_append_releases.mpr (hs.perm_iff.mpr (owed_eraseIdx ho))

theorem balanced_of_step {s t : State} {op : Operation} (hs : Balanced s)
    (h : step s op = some t) : Balanced t ↔ Owns s op := by
  rcases step_cases h with ⟨⟨i, k, rfl⟩, htrue⟩ | ⟨hop, hfalse, hperform⟩
  · refine iff_of_false ?_ id
    rintro ⟨hfalse, -⟩
    exact absurd (hfalse.symm.trans htrue) (by decide)
  · exact (and_iff_right hfalse).trans (leaves_of_perform hs.2 hop hperform)

/-- The two calls on `m_message` in `receive`, as operations of such a program. -/
theorem run_setMessage {s : State} (hs : s.undefined = false) {i : ℕ} {m : SendMessage}
    {v : Option Bytes} (hi : s.objects[i]? = some ⟨.send m, v⟩) (a : Addr) (size : ℤ) :
    ∃ t w, run step s [.setData i a, .setSize i size] = some t ∧
      t.objects[i]? = some ⟨.send ((m.setData a).setSize size), w⟩ := by
  have hlt : i < s.objects.length := (List.getElem?_eq_some_iff.mp hi).1
  have hset : (s.set i (m.setData a) none).send? i = some (m.setData a, none) := by
    rw [send?_eq_some]
    exact List.getElem?_set_self hlt
  refine ⟨(s.set i (m.setData a) none).set i ((m.setData a).setSize size) none, none, ?_, ?_⟩
  · have hfirst : step s (.setData i a) = some (s.set i (m.setData a) none) :=
      step_eq_some.mpr ⟨hs, by rw [State.perform, send?_eq_some.mpr hi, Option.map_some]⟩
    have hsecond : step (s.set i (m.setData a) none) (.setSize i size) =
        some ((s.set i (m.setData a) none).set i ((m.setData a).setSize size) none) :=
      step_eq_some.mpr ⟨hs, by rw [State.perform, hset, Option.map_some]⟩
    simp only [run, hfirst, hsecond, Option.bind_some]
  · simp [State.set, hlt]

/-- What `receive` does to `m_message` is two operations of such a program,
or none. -/
theorem run_receive (strerror : Errno → String) (role : Role) {s : State}
    (hs : s.undefined = false) {i : ℕ} {v : Option Bytes} {c : Impl} {r : ReceiveCalls}
    (heap : Heap) (hi : s.objects[i]? = some ⟨.send c.message, v⟩) :
    ∃ ops t w, run step s ops = some t ∧
      t.objects[i]? = some ⟨.send (role.receive strerror c heap r).2.1.message, w⟩ ∧
      (ops = [] ∨ ∃ a size, ops = [.setData i a, .setSize i size]) := by
  have h := received strerror role c heap r
  generalize role.receive strerror c heap r = p at h
  cases h with
  | returned data bytes htype hshort =>
      obtain ⟨t, w, ht, hw⟩ := run_setMessage hs hi data (toInt bytes.length)
      exact ⟨_, t, w, ht, hw, .inr ⟨data, _, rfl⟩⟩
  | thrown data bytes htype hlong =>
      cases role with
      | client => exact ⟨[], s, v, rfl, hi, .inl rfl⟩
      | server =>
          obtain ⟨t, w, ht, hw⟩ := run_setMessage hs hi data (toInt bytes.length)
          exact ⟨_, t, w, ht, hw, .inr ⟨data, _, rfl⟩⟩
  | _ => exact ⟨[], s, v, rfl, hi, .inl rfl⟩

/-! ## Whole runs -/

/-- Destroying what is left releases what is owed. -/
theorem run_destroy {s : State} (hs : s.undefined = false) : ∃ heap,
    run step s (List.replicate s.objects.length (.destroy 0)) =
      some ⟨heap, [], s.trace ++ (owed s.objects).map .release, false⟩ := by
  obtain ⟨heap, objects, trace, undefined⟩ := s
  obtain rfl : undefined = false := hs
  induction objects generalizing heap trace with
  | nil => exact ⟨heap, by simp [owed, run]⟩
  | cons o objects ih =>
      obtain ⟨heap', h⟩ := ih (o.message.destroy heap) (trace ++ o.message.released.map .release)
      refine ⟨heap', ?_⟩
      simp only [List.length_cons, List.replicate_succ, owed, List.flatMap_cons, List.map_append]
      simpa [run, step, State.perform, State.destroy, owed] using h

theorem settled_iff (s : State) : Settled s ↔ Balanced s := by
  refine and_congr_right ?_
  intro hs
  obtain ⟨heap, h⟩ := run_destroy hs
  simp only [h, Option.some_inj, exists_eq_left']
  exact audit_append_releases_finish

theorem balanced_start (heap : Heap) : Balanced (.start heap) :=
  ⟨rfl, [], rfl, List.Perm.refl _⟩

/-- In a run whose operations all fit the flags nothing is undefined, no
buffer is released twice or by an object that does not own it, and when all
objects are gone every buffer has been released. Up to the end of any run
the objects could be destroyed in order exactly when all its operations fit. -/
theorem ownership {heap : Heap} {ops : List Operation} {s : State}
    (hr : run step (.start heap) ops = some s) :
    (Meets step Owns (.start heap) ops →
      s.undefined = false ∧ (audit s.trace).isSome ∧
        (s.objects = [] → audit s.trace = some [])) ∧
    ((∀ before t, before <+: ops → run step (.start heap) before = some t → Settled t) ↔
      Meets step Owns (.start heap) ops) := by
  have hkeep : PreservesUnder step Owns Balanced := by
    intro t op u howns hstep ht
    exact (balanced_of_step ht hstep).mpr howns
  have hbreak : ∀ t op u, Balanced t → ¬ Owns t op → step t op = some u → ¬ Settled u := by
    intro t op u ht howns hstep hsettled
    exact howns ((balanced_of_step ht hstep).mp ((settled_iff u).mp hsettled))
  constructor
  · intro hm
    obtain ⟨hdefined, hbalanced⟩ := hkeep.run hm hr (balanced_start heap)
    refine ⟨hdefined, ?_, ?_⟩
    · obtain ⟨opened, hopened, -⟩ := hbalanced
      rw [hopened]
      rfl
    · intro hnil
      rw [hnil] at hbalanced
      exact leaves_nil.mp hbalanced
  · exact forall_reached_iff_meets (fun t ht => (settled_iff t).mpr ht) hkeep hbreak hr
      (balanced_start heap)

instance decidableOwns : ∀ (s : State) (op : Operation), Decidable (Owns s op)
  | s, .construct k =>
      inferInstanceAs (Decidable (k.acquired = [] → ∀ p ∈ s.build k, p.1.isAllocated →
        p.1.data = 0))
  | _, .assign _ _ => inferInstanceAs (Decidable False)
  | s, .swap i j =>
      inferInstanceAs (Decidable (∀ p ∈ s.send? i, ∀ q ∈ s.send? j,
        p.1.isAllocated = q.1.isAllocated ∨ p.1.data = q.1.data))
  | s, .setData i data =>
      inferInstanceAs (Decidable (∀ p ∈ s.send? i, p.1.isAllocated → data = p.1.data))
  | _, .clone _ | _, .setSize _ _ | _, .destroy _ => inferInstanceAs (Decidable True)

def emptyHeap : Heap := fun _ => none

/-- Two strings, a swap, a copy that finds its flag clear and a pointer set
in a message that is not a string. -/
def handedOver : List Operation :=
  [.construct (.string 1 0 [7]), .construct (.string 2 0 [8]), .swap 0 1,
    .construct (.copy 0 false), .construct (.pointer 9 1), .setData 3 8, .destroy 0, .destroy 0,
    .destroy 0, .destroy 0]

theorem ownership_handedOver : ∃ s, run step (.start emptyHeap) handedOver = some s ∧
    audit s.trace = some [] := by
  obtain ⟨s, hs, hnil⟩ : ∃ s, run step (.start emptyHeap) handedOver = some s ∧ s.objects = [] :=
    ⟨_, rfl, rfl⟩
  have hm : Meets step Owns (.start emptyHeap) handedOver := by decide
  exact ⟨s, hs, ((ownership hs).1 hm).2.2 hnil⟩

/-- A string is swapped with a message at the caller's own buffer, and both
are destroyed. -/
theorem ownership_fails : ¬ ∀ (heap : Heap) (ops : List Operation) (s : State),
    run step (.start heap) ops = some s →
      (audit s.trace).isSome ∧ (s.objects = [] → audit s.trace = some []) := by
  intro h
  have hforeign := (h emptyHeap [.construct (.string 1 0 [7]), .construct (.pointer 9 1),
    .swap 0 1, .destroy 0, .destroy 0] _ rfl).1
  exact absurd hforeign (by decide)

end ZeromqAgent.Messages
