import ZeromqAgent.Theory.Transition
import Mathlib.Data.List.Induction

/-!
# The protocol of a handle

A trace of events on handles is in order when a handle is used and
released only while it is open, and nothing is open at the end. `audit`
runs through a trace and yields the open handles, or nothing when the
trace is out of order.
-/

namespace Handles

open Transition

variable {η : Type*} [DecidableEq η]

inductive Event (η : Type*) where
  | acquire (h : η)
  | use (h : η)
  | release (h : η)
  | finish
  deriving DecidableEq

def check (opened : List η) : Event η → Option (List η)
  | .acquire h => some (h :: opened)
  | .use h => if h ∈ opened then some opened else none
  | .release h => if h ∈ opened then some (opened.erase h) else none
  | .finish => if opened = [] then some [] else none

def audit (es : List (Event η)) : Option (List η) := run check [] es

theorem audit_snoc (es : List (Event η)) (e : Event η) :
    audit (es ++ [e]) = (audit es).bind fun opened => check opened e := by
  rw [audit, run_append]
  cases h : run check [] es with
  | none => simp [audit, h]
  | some opened => simp [audit, h, run]

theorem check_of_use {opened : List η} {h : η} (hmem : h ∈ opened) :
    check opened (.use h) = some opened := by
  simp [check, hmem]

/-- Using open handles any number of times keeps a trace in order. -/
theorem audit_append_uses {es us : List (Event η)} {opened : List η}
    (hes : audit es = some opened) (hus : ∀ u ∈ us, ∃ h ∈ opened, u = .use h) :
    audit (es ++ us) = some opened := by
  induction us using List.reverseRecOn with
  | nil => simpa using hes
  | append_singleton us u ih =>
      have hbefore := ih fun v hv => hus v (by simp [hv])
      obtain ⟨h, hmem, rfl⟩ := hus u (by simp)
      rw [← List.append_assoc, audit_snoc, hbefore]
      exact check_of_use hmem

theorem audit_of_append_uses {es us : List (Event η)} {opened : List η}
    (h' : audit (es ++ us) = some opened) (hus : ∀ u ∈ us, ∃ h, u = .use h) :
    audit es = some opened ∧ ∀ h, .use h ∈ us → h ∈ opened := by
  induction us using List.reverseRecOn with
  | nil => exact ⟨by simpa using h', by simp⟩
  | append_singleton us u ih =>
      rw [← List.append_assoc, audit_snoc, Option.bind_eq_some_iff] at h'
      obtain ⟨before, hbefore, hcheck⟩ := h'
      obtain ⟨h, rfl⟩ := hus u (by simp)
      obtain ⟨hmem, rfl⟩ := Option.ite_none_right_eq_some.mp hcheck |>.imp id Option.some.inj
      obtain ⟨hes, hopened⟩ := ih hbefore fun v hv => hus v (by simp [hv])
      refine ⟨hes, ?_⟩
      intro k hk
      rcases List.mem_append.mp hk with hk | hk
      · exact hopened k hk
      · obtain rfl : k = h := by simpa using hk
        exact hmem

/-- The trace is in order and leaves these handles open. -/
def Leaves (es : List (Event η)) (hs : List η) : Prop :=
  ∃ opened, audit es = some opened ∧ hs.Perm opened

theorem leaves_nil {es : List (Event η)} : Leaves es [] ↔ audit es = some [] := by
  simp [Leaves, List.nil_perm]

theorem Leaves.perm_iff {es : List (Event η)} {hs ks : List η} (h : Leaves es hs) :
    Leaves es ks ↔ ks.Perm hs := by
  obtain ⟨opened, hes, hperm⟩ := h
  constructor
  · rintro ⟨opened', hes', hperm'⟩
    obtain rfl := Option.some.inj (hes.symm.trans hes')
    exact hperm'.trans hperm.symm
  · intro h
    exact ⟨opened, hes, h.trans hperm⟩

theorem Leaves.acquires {es : List (Event η)} {hs : List η} (h : Leaves es hs) (ks : List η) :
    Leaves (es ++ ks.map .acquire) (ks ++ hs) := by
  induction ks using List.reverseRecOn with
  | nil => simpa using h
  | append_singleton ks k ih =>
      obtain ⟨opened, hes, hperm⟩ := ih
      refine ⟨k :: opened, ?_, ?_⟩
      · rw [List.map_append, ← List.append_assoc, List.map_singleton, audit_snoc, hes]
        rfl
      · rw [List.append_assoc]
        exact List.perm_middle.trans (hperm.cons k)

/-- Releasing some handles and finishing is in order when they are the open
ones, each as often as it was acquired. -/
theorem audit_append_releases_finish {es : List (Event η)} {hs : List η} :
    (audit (es ++ hs.map .release ++ [.finish])).isSome ↔ Leaves es hs := by
  unfold Leaves
  induction hs generalizing es with
  | nil =>
      rw [List.map_nil, List.append_nil, audit_snoc]
      cases hes : audit es with
      | none => simp
      | some opened =>
          by_cases hnil : opened = []
          · simp [check, hnil]
          · simp [check, hnil, List.nil_perm]
  | cons h hs ih =>
      have hsplit : es ++ (h :: hs).map .release = (es ++ [.release h]) ++ hs.map .release := by
        simp
      rw [hsplit, ih, audit_snoc]
      cases hes : audit es with
      | none => simp
      | some opened =>
          by_cases hmem : h ∈ opened
          · simp [check, hmem, List.cons_perm_iff_perm_erase]
          · simp [check, hmem, List.cons_perm_iff_perm_erase]

theorem leaves_append_releases {es : List (Event η)} {hs ks : List η} :
    Leaves (es ++ hs.map .release) ks ↔ Leaves es (hs ++ ks) := by
  rw [← audit_append_releases_finish, ← audit_append_releases_finish]
  simp

/-- Releasing one handle and finishing is in order when it is the only one open. -/
theorem audit_append_release_finish {es : List (Event η)} {h : η} :
    (audit (es ++ [.release h, .finish])).isSome ↔ audit es = some [h] := by
  have hsplit : es ++ [.release h, .finish] = es ++ [h].map .release ++ [.finish] := by simp
  rw [hsplit, audit_append_releases_finish]
  simp [Leaves, List.singleton_perm]

end Handles
