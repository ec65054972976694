import Mathlib.Data.List.Induction

/-!
# Framing of multipart messages

A multipart message travels as its parts, every part but the last
carrying the flag that more parts follow. `split` reads a part stream
into its complete `messages` and the `pending` parts of a message that
has begun and not ended.
-/

namespace Framing

variable {α : Type*}

def frame : List α → List (α × Bool)
  | [] => []
  | [a] => [(a, false)]
  | a :: b :: l => (a, true) :: frame (b :: l)

@[simp] theorem frame_singleton (a : α) : frame [a] = [(a, false)] := rfl

@[simp] theorem frame_cons_cons (a b : α) (l : List α) :
    frame (a :: b :: l) = (a, true) :: frame (b :: l) := rfl

@[simp] theorem map_fst_frame (l : List α) : (frame l).map Prod.fst = l := by
  induction l with
  | nil => rfl
  | cons a l ih =>
      cases l with
      | nil => rfl
      | cons b l => rw [frame_cons_cons, List.map_cons, ih]

def push (s : List (List α) × List α) (p : α × Bool) : List (List α) × List α :=
  if p.2 then (s.1, s.2 ++ [p.1]) else (s.1 ++ [s.2 ++ [p.1]], [])

def split (l : List (α × Bool)) : List (List α) × List α := l.foldl push ([], [])

def messages (l : List (α × Bool)) : List (List α) := (split l).1

def pending (l : List (α × Bool)) : List α := (split l).2

@[simp] theorem messages_nil : messages ([] : List (α × Bool)) = [] := rfl

@[simp] theorem pending_nil : pending ([] : List (α × Bool)) = [] := rfl

theorem split_snoc (l : List (α × Bool)) (p : α × Bool) : split (l ++ [p]) = push (split l) p := by
  simp [split]

@[simp] theorem messages_snoc_more (l : List (α × Bool)) (a : α) :
    messages (l ++ [(a, true)]) = messages l := by
  simp [messages, split_snoc, push]

@[simp] theorem pending_snoc_more (l : List (α × Bool)) (a : α) :
    pending (l ++ [(a, true)]) = pending l ++ [a] := by
  simp [pending, split_snoc, push]

@[simp] theorem messages_snoc_last (l : List (α × Bool)) (a : α) :
    messages (l ++ [(a, false)]) = messages l ++ [pending l ++ [a]] := by
  simp [messages, pending, split_snoc, push]

@[simp] theorem pending_snoc_last (l : List (α × Bool)) (a : α) :
    pending (l ++ [(a, false)]) = [] := by
  simp [pending, split_snoc, push]

theorem messages_snoc_mono (l : List (α × Bool)) (p : α × Bool) :
    messages l <+: messages (l ++ [p]) := by
  obtain ⟨a, more⟩ := p
  cases more with
  | false => exact ⟨[pending l ++ [a]], by simp⟩
  | true => exact ⟨[], by simp⟩

theorem messages_mono {l m : List (α × Bool)} (h : l <+: m) : messages l <+: messages m := by
  obtain ⟨r, rfl⟩ := h
  induction r using List.reverseRecOn with
  | nil => simp
  | append_singleton r p ih =>
      rw [← List.append_assoc]
      exact ih.trans (messages_snoc_mono (l ++ r) p)

/-- A stream that goes on to a boundary gains a message. -/
theorem length_messages_lt {l r : List (α × Bool)} (hr : r ≠ []) (hp : pending (l ++ r) = []) :
    (messages l).length < (messages (l ++ r)).length := by
  obtain rfl | ⟨r, ⟨a, more⟩, rfl⟩ := List.eq_nil_or_concat r
  · exact (hr rfl).elim
  have hmono := (messages_mono (List.prefix_append l r)).length_le
  rw [List.concat_eq_append, ← List.append_assoc] at hp ⊢
  cases more with
  | true =>
      rw [pending_snoc_more] at hp
      simp at hp
  | false =>
      rw [messages_snoc_last, List.length_append, List.length_singleton]
      omega

/-- A whole message read from a stream completes the message that was open. -/
theorem split_append_frame (l : List (α × Bool)) {m : List α} (hm : m ≠ []) :
    messages (l ++ frame m) = messages l ++ [pending l ++ m] ∧ pending (l ++ frame m) = [] := by
  induction m generalizing l with
  | nil => exact (hm rfl).elim
  | cons a m ih =>
      cases m with
      | nil => simp
      | cons b m =>
          have h := ih (l ++ [(a, true)]) (by simp)
          simpa [List.append_assoc] using h

/-- Reading back a sequence of framed messages yields exactly those messages. -/
theorem messages_flatMap_frame {ms : List (List α)} (h : ∀ m ∈ ms, m ≠ []) :
    messages (ms.flatMap frame) = ms ∧ pending (ms.flatMap frame) = [] := by
  induction ms using List.reverseRecOn with
  | nil => simp
  | append_singleton ms m ih =>
      obtain ⟨hms, hp⟩ := ih fun x hx => h x (by simp [hx])
      have hm := split_append_frame (ms.flatMap frame) (h m (by simp))
      simpa [hms, hp] using hm

/-- A stream that shows `k` messages has read all parts of the first `k`. -/
theorem length_flatMap_take_le {l : List (α × Bool)} {ms : List (List α)}
    (h : ∀ m ∈ ms, m ≠ []) (hl : l <+: ms.flatMap frame) {k : ℕ} (hk : k ≤ (messages l).length) :
    ((ms.take k).flatMap frame).length ≤ l.length := by
  by_contra hlt
  have htake : (ms.take k).flatMap frame <+: ms.flatMap frame := by
    refine ⟨(ms.drop k).flatMap frame, ?_⟩
    rw [← List.flatMap_append, List.take_append_drop]
  obtain ⟨r, hr⟩ := List.prefix_of_prefix_length_le hl htake (Nat.le_of_lt (Nat.lt_of_not_le hlt))
  have hr' : r ≠ [] := by
    rintro rfl
    rw [List.append_nil] at hr
    exact hlt (hr ▸ Nat.le_refl _)
  have hne : ∀ m ∈ ms.take k, m ≠ [] := fun m hm => h m (List.mem_of_mem_take hm)
  obtain ⟨hmessages, hpending⟩ := messages_flatMap_frame hne
  rw [← hr] at hmessages hpending
  have hcount := length_messages_lt hr' hpending
  rw [hmessages, List.length_take] at hcount
  omega

/-! ## Dropping whole messages from a stream -/

/-- The first stream is the second one with some whole messages left out;
the open message of the second is present so far in full or not at all. -/
def Thins (out inn : List (α × Bool)) : Prop :=
  List.Sublist (messages out) (messages inn) ∧ (pending out = pending inn ∨ pending out = [])

theorem Thins.nil : Thins ([] : List (α × Bool)) [] := ⟨List.Sublist.refl _, Or.inl rfl⟩

/-- A part is passed on; a later part only when the earlier ones were. -/
theorem Thins.keep {out inn : List (α × Bool)} (h : Thins out inn) (p : α × Bool)
    (hp : pending inn ≠ [] → pending out ≠ []) : Thins (out ++ [p]) (inn ++ [p]) := by
  have heq : pending out = pending inn := by
    rcases h.2 with heq | hnil
    · exact heq
    · by_cases hinn : pending inn = []
      · rw [hnil, hinn]
      · exact (hp hinn hnil).elim
  obtain ⟨a, more⟩ := p
  cases more with
  | true => exact ⟨by simpa using h.1, Or.inl (by simp [heq])⟩
  | false =>
      refine ⟨?_, Or.inl (by simp)⟩
      simp only [messages_snoc_last, heq]
      exact h.1.append (List.Sublist.refl _)

/-- A part is dropped; a later part only when the earlier ones were. -/
theorem Thins.drop {out inn : List (α × Bool)} (h : Thins out inn) (p : α × Bool)
    (hp : pending inn ≠ [] → pending out = []) : Thins out (inn ++ [p]) := by
  have hnil : pending out = [] := by
    rcases h.2 with heq | hnil
    · by_cases hinn : pending inn = []
      · rw [heq, hinn]
      · exact hp hinn
    · exact hnil
  exact ⟨h.1.trans (messages_snoc_mono inn p).sublist, Or.inr hnil⟩

end Framing
