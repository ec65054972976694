import ZeromqAgent.Theory.Transition

/-!
# Simulation and termination

Two ways of reading a run. An observer sees some of its steps; a machine
simulates another when it can answer each step of the other by a run that
looks the same, and then every trace of the one is a trace of the other.
A measure that every step of a kind uses up bounds the number of steps of
that kind in a row, so that they come to an end.
-/

namespace Transition

variable {σ α τ β ο : Type*}

/-! ## Traces -/

def trace (step : σ → α → Option σ) (see : σ → α → List ο) : σ → List α → List ο
  | _, [] => []
  | s, a :: as =>
      match step s a with
      | none => []
      | some t => see s a ++ trace step see t as

@[simp] theorem trace_nil (step : σ → α → Option σ) (see : σ → α → List ο) (s : σ) :
    trace step see s [] = [] := rfl

theorem trace_cons {step : σ → α → Option σ} {see : σ → α → List ο} {s t : σ} {a : α}
    (h : step s a = some t) (as : List α) :
    trace step see s (a :: as) = see s a ++ trace step see t as := by
  simp [trace, h]

theorem trace_append {step : σ → α → Option σ} {see : σ → α → List ο} {s t : σ} {as : List α}
    (h : run step s as = some t) (bs : List α) :
    trace step see s (as ++ bs) = trace step see s as ++ trace step see t bs := by
  induction as generalizing s with
  | nil =>
      obtain rfl : s = t := Option.some.inj h
      rfl
  | cons a as ih =>
      obtain ⟨u, hu, hr⟩ := run_cons_eq_some.mp h
      rw [List.cons_append, trace_cons hu, trace_cons hu, ih hr, List.append_assoc]

theorem trace_singleton {step : σ → α → Option σ} (see : σ → α → List ο) {s t : σ} {a : α}
    (h : step s a = some t) : run step s [a] = some t ∧ trace step see s [a] = see s a :=
  ⟨run_cons_eq_some.mpr ⟨t, h, rfl⟩, by rw [trace_cons h, trace_nil, List.append_nil]⟩

/-- A run none of whose steps is seen. -/
theorem trace_eq_nil_of_meets {step : σ → α → Option σ} {see : σ → α → List ο}
    {C : σ → α → Prop} (hsee : ∀ s a, C s a → see s a = []) {s : σ} {as : List α}
    (h : Meets step C s as) : trace step see s as = [] := by
  induction as generalizing s with
  | nil => rfl
  | cons a as ih =>
      cases ht : step s a with
      | none => simp [trace, ht]
      | some t => rw [trace_cons ht, hsee s a h.1, ih (h.2 t ht), List.nil_append]

theorem trace_eq_nil {step : σ → α → Option σ} {see : σ → α → List ο} {as : List α}
    (h : ∀ a ∈ as, ∀ s, see s a = []) (s : σ) : trace step see s as = [] :=
  trace_eq_nil_of_meets (fun _ _ hsee => hsee) (meets_of_forall_mem h s)

def Traces (step : σ → α → Option σ) (see : σ → α → List ο) (s : σ) (os : List ο) : Prop :=
  ∃ as t, run step s as = some t ∧ trace step see s as = os

/-! ## Simulation -/

/-- A relation along which the second machine answers every step of the
first with a run, empty if nothing is seen of the step, that looks the
same. -/
structure Simulation (step : σ → α → Option σ) (see : σ → α → List ο) (step' : τ → β → Option τ)
    (see' : τ → β → List ο) where
  rel : σ → τ → Prop
  answers : ∀ s s' a t, rel s s' → step s a = some t →
    ∃ bs t', run step' s' bs = some t' ∧ trace step' see' s' bs = see s a ∧ rel t t'

variable {step : σ → α → Option σ} {see : σ → α → List ο} {step' : τ → β → Option τ}
variable {see' : τ → β → List ο}

theorem Simulation.run (S : Simulation step see step' see') {s t : σ} {s' : τ} {as : List α}
    (hs : S.rel s s') (hr : Transition.run step s as = some t) :
    ∃ bs t', Transition.run step' s' bs = some t' ∧
      trace step' see' s' bs = trace step see s as ∧ S.rel t t' := by
  induction as generalizing s s' with
  | nil =>
      obtain rfl : s = t := Option.some.inj hr
      exact ⟨[], s', rfl, rfl, hs⟩
  | cons a as ih =>
      obtain ⟨u, hu, hr⟩ := run_cons_eq_some.mp hr
      obtain ⟨bs, u', hu', hsee, hR⟩ := S.answers s s' a u hs hu
      obtain ⟨cs, t', ht', htrace, hR⟩ := ih hR hr
      refine ⟨bs ++ cs, t', ?_, ?_, hR⟩
      · rw [run_append, hu']
        exact ht'
      · rw [trace_append hu', trace_cons hu, hsee, htrace]

theorem Simulation.traces (S : Simulation step see step' see') {s : σ} {s' : τ} {os : List ο}
    (hs : S.rel s s') (h : Traces step see s os) : Traces step' see' s' os := by
  obtain ⟨as, t, hr, rfl⟩ := h
  obtain ⟨bs, t', hr', htrace, -⟩ := S.run hs hr
  exact ⟨bs, t', hr', htrace⟩

/-! ## Measures -/

theorem forall_mem_of_meets {D : α → Prop} {s t : σ} {as : List α}
    (h : Meets step (fun _ a => D a) s as) (hr : Transition.run step s as = some t) :
    ∀ a ∈ as, D a := by
  induction as generalizing s with
  | nil => simp
  | cons a as ih =>
      obtain ⟨u, hu, hr⟩ := run_cons_eq_some.mp hr
      exact List.forall_mem_cons.mpr ⟨h.1, ih (h.2 u hu) hr⟩

/-- Every step that meets the condition uses up some of the measure. -/
def Decreases (step : σ → α → Option σ) (C : σ → α → Prop) (I : σ → Prop) (μ : σ → ℕ) : Prop :=
  ∀ ⦃s a t⦄, I s → C s a → step s a = some t → μ t < μ s

theorem Decreases.length_add_le {C : σ → α → Prop} {I : σ → Prop} {μ : σ → ℕ}
    (h : Decreases step C I μ) (hI : PreservesUnder step C I) {s t : σ} {as : List α} (hs : I s)
    (hm : Meets step C s as) (hr : Transition.run step s as = some t) :
    as.length + μ t ≤ μ s := by
  induction as generalizing s with
  | nil =>
      obtain rfl : s = t := Option.some.inj hr
      simp
  | cons a as ih =>
      obtain ⟨u, hu, hr⟩ := run_cons_eq_some.mp hr
      have hrest := ih (hI hm.1 hu hs) (hm.2 u hu) hr
      have hlt := h hs hm.1 hu
      rw [List.length_cons]
      omega

/-- The steps that meet the condition come to an end. -/
theorem Decreases.exists_exhausted {C : σ → α → Prop} {I : σ → Prop} {μ : σ → ℕ}
    (h : Decreases step C I μ) (hI : PreservesUnder step C I) {s : σ} (hs : I s) :
    ∃ as t, Meets step C s as ∧ Transition.run step s as = some t ∧
      ∀ a, C t a → step t a = none := by
  induction hn : μ s using Nat.strongRecOn generalizing s with
  | ind n ih =>
      by_cases hstuck : ∀ a, C s a → step s a = none
      · exact ⟨[], s, trivial, rfl, hstuck⟩
      · push Not at hstuck
        obtain ⟨a, ha, hne⟩ := hstuck
        obtain ⟨u, hu⟩ := Option.ne_none_iff_exists'.mp hne
        obtain ⟨as, t, hm, hr, hend⟩ := ih (μ u) (hn ▸ h hs ha hu) (hI ha hu hs) rfl
        refine ⟨a :: as, t, ⟨ha, ?_⟩, run_cons_eq_some.mpr ⟨u, hu, hr⟩, hend⟩
        intro v hv
        obtain rfl : u = v := Option.some.inj (hu.symm.trans hv)
        exact hm

end Transition
