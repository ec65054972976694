import Mathlib.Data.List.Induction
import Mathlib.Logic.Relation

/-!
# Runs of an executable step function

A machine is a step function on states and actions; an action that is
not enabled has no successor. Runs are finite lists of actions. An
invariant is carried along every run, or along those runs whose steps
all meet a condition on the state before the step and the action taken.
-/

namespace Transition

variable {σ α τ β : Type*}

def run (step : σ → α → Option σ) : σ → List α → Option σ
  | s, [] => some s
  | s, a :: as => (step s a).bind fun t => run step t as

theorem run_cons_eq_some {step : σ → α → Option σ} {s u : σ} {a : α} {as : List α} :
    run step s (a :: as) = some u ↔ ∃ t, step s a = some t ∧ run step t as = some u := by
  simp [run, Option.bind_eq_some_iff]

theorem run_append (step : σ → α → Option σ) (s : σ) (xs ys : List α) :
    run step s (xs ++ ys) = (run step s xs).bind fun t => run step t ys := by
  induction xs generalizing s with
  | nil => rfl
  | cons a xs ih =>
      cases h : step s a with
      | none => simp [run, h]
      | some t => simpa [run, h] using ih t

theorem exists_run {step : σ → α → Option σ} (htotal : ∀ s a, (step s a).isSome) (s : σ)
    (as : List α) : ∃ t, run step s as = some t := by
  induction as generalizing s with
  | nil => exact ⟨s, rfl⟩
  | cons a as ih =>
      obtain ⟨t, ht⟩ := Option.isSome_iff_exists.mp (htotal s a)
      obtain ⟨u, hu⟩ := ih t
      exact ⟨u, run_cons_eq_some.mpr ⟨t, ht, hu⟩⟩

/-- An invariant that also speaks of the actions taken so far. -/
theorem run_history {step : σ → α → Option σ} {P : List α → σ → Prop} {s t : σ} {as : List α}
    (hr : run step s as = some t) (hs : P [] s)
    (hstep : ∀ as a t u, P as t → step t a = some u → P (as ++ [a]) u) : P as t := by
  induction as using List.reverseRecOn generalizing t with
  | nil =>
      have heq : s = t := Option.some.inj hr
      exact heq ▸ hs
  | append_singleton as a ih =>
      rw [run_append, Option.bind_eq_some_iff] at hr
      obtain ⟨u, hu, hr⟩ := hr
      obtain ⟨v, hv, heq⟩ := run_cons_eq_some.mp hr
      have hvt : v = t := Option.some.inj heq
      exact hvt ▸ hstep as a u v (ih hu) hv

def Reaches (step : σ → α → Option σ) (s t : σ) : Prop := ∃ as, run step s as = some t

theorem Reaches.refl (step : σ → α → Option σ) (s : σ) : Reaches step s s := ⟨[], rfl⟩

theorem Reaches.trans {step : σ → α → Option σ} {s t u : σ}
    (hst : Reaches step s t) (htu : Reaches step t u) : Reaches step s u := by
  obtain ⟨xs, hx⟩ := hst
  obtain ⟨ys, hy⟩ := htu
  exact ⟨xs ++ ys, by simpa [run_append, hx] using hy⟩

def Preserves (step : σ → α → Option σ) (P : σ → Prop) : Prop :=
  ∀ ⦃s a t⦄, step s a = some t → P s → P t

theorem Preserves.run {step : σ → α → Option σ} {P : σ → Prop} (h : Preserves step P)
    {s t : σ} {as : List α} (hr : run step s as = some t) (hs : P s) : P t := by
  induction as generalizing s with
  | nil =>
      have heq : s = t := Option.some.inj hr
      exact heq ▸ hs
  | cons a as ih =>
      obtain ⟨u, hu, hr⟩ := run_cons_eq_some.mp hr
      exact ih hr (h hu hs)

/-- A machine seen as another, each of its steps as a run of the other. -/
theorem run_flatMap {step : σ → α → Option σ} {step' : τ → β → Option τ} {view : σ → τ}
    {see : α → List β} {I : σ → Prop} (hI : Preserves step I)
    (hview : ∀ s a t, I s → step s a = some t → run step' (view s) (see a) = some (view t))
    {s t : σ} {as : List α} (hs : I s) (hr : run step s as = some t) :
    run step' (view s) (as.flatMap see) = some (view t) := by
  induction as generalizing s with
  | nil =>
      obtain rfl : s = t := Option.some.inj hr
      rfl
  | cons a as ih =>
      obtain ⟨u, hu, hr⟩ := run_cons_eq_some.mp hr
      rw [List.flatMap_cons, run_append, hview s a u hs hu, Option.bind_some]
      exact ih (hI hu hs) hr

/-- A second machine that can follow the first in each of the actions of a
run can follow it in the run. -/
theorem exists_run_of_follows {step : σ → α → Option σ} {step' : τ → α → Option τ}
    {R : σ → τ → Prop} {as : List α}
    (hfollows : ∀ a ∈ as, ∀ s s' t, R s s' → step s a = some t →
      ∃ t', step' s' a = some t' ∧ R t t')
    {s t : σ} {s' : τ} (hs : R s s') (hr : run step s as = some t) :
    ∃ t', run step' s' as = some t' ∧ R t t' := by
  induction as generalizing s s' with
  | nil =>
      obtain rfl : s = t := Option.some.inj hr
      exact ⟨s', rfl, hs⟩
  | cons a as ih =>
      obtain ⟨u, hu, hr⟩ := run_cons_eq_some.mp hr
      obtain ⟨u', hu', hR⟩ := hfollows a List.mem_cons_self s s' u hs hu
      obtain ⟨t', ht', hR⟩ := ih (fun b hb => hfollows b (List.mem_cons_of_mem a hb)) hR hr
      exact ⟨t', run_cons_eq_some.mpr ⟨u', hu', ht'⟩, hR⟩

/-! ## Runs whose steps all meet a condition -/

/-- Each action of the run meets the condition in the state it is taken in. -/
def Meets (step : σ → α → Option σ) (C : σ → α → Prop) : σ → List α → Prop
  | _, [] => True
  | s, a :: as => C s a ∧ ∀ t, step s a = some t → Meets step C t as

def PreservesUnder (step : σ → α → Option σ) (C : σ → α → Prop) (P : σ → Prop) : Prop :=
  ∀ ⦃s a t⦄, C s a → step s a = some t → P s → P t

instance decidableMeets (step : σ → α → Option σ) (C : σ → α → Prop)
    [∀ s a, Decidable (C s a)] : ∀ s as, Decidable (Meets step C s as)
  | _, [] => isTrue trivial
  | s, a :: as =>
      match h : step s a with
      | none => decidable_of_iff (C s a) (by simp [Meets, h])
      | some t =>
          have := decidableMeets step C t as
          decidable_of_iff (C s a ∧ Meets step C t as) (by simp [Meets, h])

theorem meets_of_forall_mem {step : σ → α → Option σ} {C : σ → α → Prop} {as : List α}
    (h : ∀ a ∈ as, ∀ s, C s a) (s : σ) : Meets step C s as := by
  induction as generalizing s with
  | nil => trivial
  | cons a as ih =>
      exact ⟨h a (by simp) s, fun t _ => ih (fun b hb => h b (by simp [hb])) t⟩

theorem meets_of_preserves {step : σ → α → Option σ} {C : σ → α → Prop} {I : σ → Prop}
    (hI : Preserves step I) (hC : ∀ s a t, I s → step s a = some t → C s a) {s t : σ} {as : List α}
    (hr : run step s as = some t) (hs : I s) : Meets step C s as := by
  induction as generalizing s with
  | nil => trivial
  | cons a as ih =>
      obtain ⟨u, hu, hr⟩ := run_cons_eq_some.mp hr
      refine ⟨hC s a u hs hu, ?_⟩
      intro v hv
      obtain rfl : u = v := Option.some.inj (hu.symm.trans hv)
      exact ih hr (hI hu hs)

/-- A condition that only depends on the actions, given an invariant. -/
theorem meets_iff_forall_mem {step : σ → α → Option σ} {C : σ → α → Prop} {D : α → Prop}
    {I : σ → Prop} (hI : Preserves step I) (hC : ∀ s a, I s → (C s a ↔ D a))
    (htotal : ∀ s a, (step s a).isSome) {s : σ} (hs : I s) {as : List α} :
    Meets step C s as ↔ ∀ a ∈ as, D a := by
  induction as generalizing s with
  | nil => simp [Meets]
  | cons a as ih =>
      obtain ⟨t, ht⟩ := Option.isSome_iff_exists.mp (htotal s a)
      simp [Meets, hC s a hs, ht, ih (hI ht hs)]

theorem Meets.of_append {step : σ → α → Option σ} {C : σ → α → Prop} {s : σ} {as bs : List α}
    (h : Meets step C s (as ++ bs)) : Meets step C s as := by
  induction as generalizing s with
  | nil => trivial
  | cons a as ih => exact ⟨h.1, fun t ht => ih (h.2 t ht)⟩

theorem Meets.and {step : σ → α → Option σ} {C D : σ → α → Prop} {s : σ} {as : List α}
    (hC : Meets step C s as) (hD : Meets step D s as) :
    Meets step (fun s a => C s a ∧ D s a) s as := by
  induction as generalizing s with
  | nil => trivial
  | cons a as ih => exact ⟨⟨hC.1, hD.1⟩, fun t ht => ih (hC.2 t ht) (hD.2 t ht)⟩

theorem PreservesUnder.run {step : σ → α → Option σ} {C : σ → α → Prop} {P : σ → Prop}
    (h : PreservesUnder step C P) {s t : σ} {as : List α} (hm : Meets step C s as)
    (hr : run step s as = some t) (hs : P s) : P t := by
  induction as generalizing s with
  | nil =>
      have heq : s = t := Option.some.inj hr
      exact heq ▸ hs
  | cons a as ih =>
      obtain ⟨u, hu, hr⟩ := run_cons_eq_some.mp hr
      exact ih (hm.2 u hu) hr (h hm.1 hu hs)

/-- If the condition keeps an invariant that gives the property, and each
step from the invariant that does not meet it breaks the property at once,
then the property holds in every state of a run exactly when all its steps
meet the condition. -/
theorem forall_reached_iff_meets {step : σ → α → Option σ} {C : σ → α → Prop} {P I : σ → Prop}
    (hP : ∀ s, I s → P s) (hkeep : PreservesUnder step C I)
    (hbreak : ∀ s a t, I s → ¬ C s a → step s a = some t → ¬ P t) {s t : σ} {as : List α}
    (hr : run step s as = some t) (hs : I s) :
    (∀ bs u, bs <+: as → run step s bs = some u → P u) ↔ Meets step C s as := by
  constructor
  · intro h
    induction as generalizing s with
    | nil => trivial
    | cons a as ih =>
        obtain ⟨u, hu, hr⟩ := run_cons_eq_some.mp hr
        have hC : C s a := by
          by_contra hC
          refine hbreak s a u hs hC hu (h [a] u ?_ ?_)
          · exact List.prefix_append [a] as
          · exact run_cons_eq_some.mpr ⟨u, hu, rfl⟩
        refine ⟨hC, ?_⟩
        intro v hv
        obtain rfl : u = v := Option.some.inj (hu.symm.trans hv)
        apply ih hr (hkeep hC hu hs)
        intro bs w hbs hw
        exact h (a :: bs) w ((List.cons_prefix_cons).mpr ⟨rfl, hbs⟩)
          (run_cons_eq_some.mpr ⟨u, hu, hw⟩)
  · intro hm bs u hbs hu
    obtain ⟨cs, rfl⟩ := hbs
    exact hP u (hkeep.run hm.of_append hu hs)

end Transition
