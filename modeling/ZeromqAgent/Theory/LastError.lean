import ZeromqAgent.Theory.Transition

/-!
# Objects that store their last error

An operation on such an object may fail with a code, and it reports to its
caller that it failed or succeeded. When each failure is reported and
stored, and nothing else is stored, the stored text is that of the last
report until an operation reports a failure that has no code.
-/

namespace LastError

open Transition

variable {σ ω ε τ : Type*}

/-- One operation that was executed. -/
structure Report (ω ε : Type*) where
  op : ω
  reported : Bool
  code : Option ε

/-- What an operation does and whether it reports a failure, the code with
which it fails, and the stored text. -/
structure Reporter (σ ω ε τ : Type*) where
  exec : σ → ω → Bool × σ
  code : σ → ω → Option ε
  text : σ → τ

/-- The object, and the operations so far with the last one first. -/
structure Log (σ ω ε : Type*) where
  object : σ
  reports : List (Report ω ε)

section

variable (describe : ε → τ) (clear : τ) (k : Reporter σ ω ε τ)

def step (s : Log σ ω ε) (o : ω) : Option (Log σ ω ε) :=
  some
    { object := (k.exec s.object o).2
      reports := ⟨o, (k.exec s.object o).1, k.code s.object o⟩ :: s.reports }

/-- Every operation that failed has reported it. -/
def Complete (s : Log σ ω ε) : Prop := ∀ p ∈ s.reports, p.code ≠ none → p.reported = true

/-- The stored text is that of the last operation that reported a failure,
and the clear one when there is none. -/
def Current (s : Log σ ω ε) : Prop :=
  match s.reports.find? (·.reported) with
  | none => k.text s.object = clear
  | some p => ∃ e, p.code = some e ∧ k.text s.object = describe e

/-- An operation that fails reports it and stores its text; another leaves
the text. -/
structure Faithful : Prop where
  failed : ∀ s o e, k.code s o = some e →
    (k.exec s o).1 = true ∧ k.text (k.exec s o).2 = describe e
  passed : ∀ s o, k.code s o = none → k.text (k.exec s o).2 = k.text s

/-- The operation reports no failure that has no code. -/
def Candid (s : Log σ ω ε) (o : ω) : Prop :=
  (k.exec s.object o).1 = true → k.code s.object o ≠ none

/-- After every part of the sequence of operations. -/
def Throughout (object : σ) (ops : List ω) (P : Log σ ω ε → Prop) : Prop :=
  ∀ os s, os <+: ops → run (step k) ⟨object, []⟩ os = some s → P s

variable {describe clear k}

theorem complete_step (hk : Faithful describe k) : Preserves (step k) Complete := by
  intro s o t h hcomplete p hp
  obtain rfl := Option.some.inj h
  rcases List.mem_cons.mp hp with rfl | hp
  · intro hcode
    obtain ⟨e, he⟩ := Option.ne_none_iff_exists'.mp hcode
    exact (hk.failed s.object o e he).1
  · exact hcomplete p hp

theorem complete_throughout (hk : Faithful describe k) (object : σ) (ops : List ω) :
    Throughout k object ops Complete := by
  intro os s _ hr
  exact (complete_step hk).run hr (by simp [Complete])

theorem current_step (hk : Faithful describe k) :
    PreservesUnder (step k) (Candid k) (Current describe clear k) := by
  intro s o t hcandid h hcurrent
  obtain rfl := Option.some.inj h
  cases he : k.code s.object o with
  | none =>
      have hreported : (k.exec s.object o).1 = false := by
        by_contra hne
        exact hcandid (by simpa using hne) he
      simpa only [Current, List.find?_cons, hreported, hk.passed s.object o he] using hcurrent
  | some e =>
      obtain ⟨hreported, htext⟩ := hk.failed s.object o e he
      simp only [Current, List.find?_cons, hreported]
      exact ⟨e, rfl, htext⟩

theorem not_current_step {s t : Log σ ω ε} {o : ω} (hcandid : ¬ Candid k s o)
    (h : step k s o = some t) : ¬ Current describe clear k t := by
  obtain rfl := Option.some.inj h
  simp only [Candid, Classical.not_imp, not_not] at hcandid
  obtain ⟨hreported, hcode⟩ := hcandid
  simp [Current, hreported, hcode]

/-- For an object that starts without an error, when it depends on the
operation alone whether a failure without a code is reported. -/
theorem current_throughout (hk : Faithful describe k) {I : σ → Prop} {D : ω → Prop}
    (hI : ∀ s o, I s → I (k.exec s o).2)
    (hD : ∀ s o, I s → (((k.exec s o).1 = true → k.code s o ≠ none) ↔ D o))
    {object : σ} (hobject : I object) (hstart : k.text object = clear) (ops : List ω) :
    Throughout k object ops (Current describe clear k) ↔ ∀ o ∈ ops, D o := by
  have hpreserves : Preserves (step k) fun s => I s.object := by
    intro s o t h hs
    obtain rfl := Option.some.inj h
    exact hI s.object o hs
  have htotal : ∀ s o, (step k s o).isSome := fun _ _ => rfl
  obtain ⟨s, hr⟩ := exists_run htotal ⟨object, []⟩ ops
  have hiff := forall_reached_iff_meets (P := Current describe clear k) (fun s hs => hs)
    (current_step hk) (fun s o t _ hC h => not_current_step hC h) hr hstart
  exact hiff.trans (meets_iff_forall_mem hpreserves (fun s o hs => hD s.object o hs) htotal hobject)

end

end LastError
