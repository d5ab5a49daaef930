/-!
# Parley.Run — steps in a row

A machine is a function that says what an action makes of a state and what happens on the way, or
that the action is not possible.  `Run.all` takes a list of actions in a row; an invariant of the
steps is one of the runs.
-/

namespace Parley.Run

variable {σ α ε : Type}

/-- Take actions in a row, with everything that happens. -/
def all (step : σ → α → Option (σ × List ε)) (s : σ) : List α → Option (σ × List ε)
  | [] => some (s, [])
  | a :: as =>
    match step s a with
    | none => none
    | some (s', es) => (all step s' as).map fun o => (o.1, es ++ o.2)

variable {step : σ → α → Option (σ × List ε)}

@[simp] theorem all_nil (s : σ) : all step s [] = some (s, []) := rfl

theorem all_cons_eq_some_iff {s t : σ} {a : α} {as : List α} {es : List ε} :
    all step s (a :: as) = some (t, es) ↔
      ∃ s' es₁ es₂, step s a = some (s', es₁) ∧ all step s' as = some (t, es₂) ∧
        es = es₁ ++ es₂ := by
  rw [all]
  cases step s a with
  | none => simp
  | some o =>
    simp only [Option.map_eq_some_iff, Prod.mk.injEq, Option.some.injEq, Prod.exists]
    constructor
    · rintro ⟨t', es₂, h, rfl, rfl⟩
      exact ⟨o.1, o.2, es₂, rfl, h, rfl⟩
    · rintro ⟨s', es₁, es₂, rfl, h, rfl⟩
      exact ⟨t, es₂, h, rfl, rfl⟩

theorem all_append (s : σ) (as bs : List α) :
    all step s (as ++ bs) =
      (all step s as).bind fun o => (all step o.1 bs).map fun p => (p.1, o.2 ++ p.2) := by
  induction as generalizing s with
  | nil => simp
  | cons a as ih =>
    simp only [List.cons_append, all]
    cases step s a with
    | none => rfl
    | some o =>
      simp only [ih]
      cases all step o.1 as with
      | none => rfl
      | some p => simp [Function.comp_def]

/-- One run after the other is a run. -/
theorem all_append_of_eq_some {s t u : σ} {as bs : List α} {es fs : List ε}
    (h₁ : all step s as = some (t, es)) (h₂ : all step t bs = some (u, fs)) :
    all step s (as ++ bs) = some (u, es ++ fs) := by
  rw [all_append, h₁]
  exact congrArg (Option.map _) h₂

theorem all_concat_eq_some_iff {s t : σ} {a : α} {as : List α} {es : List ε} :
    all step s (as ++ [a]) = some (t, es) ↔
      ∃ s' es₁ es₂, all step s as = some (s', es₁) ∧ step s' a = some (t, es₂) ∧
        es = es₁ ++ es₂ := by
  rw [all_append, Option.bind_eq_some_iff]
  constructor
  · rintro ⟨⟨s', es₁⟩, h₁, h₂⟩
    obtain ⟨⟨t', es'⟩, h₂, ho⟩ := Option.map_eq_some_iff.mp h₂
    obtain ⟨t'', es₂, es₃, ha, hnil, rfl⟩ := all_cons_eq_some_iff.mp h₂
    cases hnil
    cases ho
    exact ⟨s', es₁, es₂, h₁, ha, by simp⟩
  · rintro ⟨s', es₁, es₂, h₁, ha, rfl⟩
    exact ⟨(s', es₁), h₁, by simp [all, ha]⟩

/-- What holds at some point of a run and is kept by its steps holds at its end. -/
theorem all_history_from {I : σ → List α → List ε → Prop} {s s₁ t : σ} {whole pre as : List α}
    {es₁ es : List ε}
    (hstep : ∀ pre a post s₁ es₁ s₂ es₂, whole = pre ++ a :: post →
      all step s pre = some (s₁, es₁) → step s₁ a = some (s₂, es₂) → I s₁ pre es₁ →
        I s₂ (pre ++ [a]) (es₁ ++ es₂))
    (hwhole : whole = pre ++ as) (hpre : all step s pre = some (s₁, es₁)) (hs₁ : I s₁ pre es₁)
    (h : all step s₁ as = some (t, es)) : I t whole (es₁ ++ es) := by
  induction as generalizing pre s₁ es₁ es with
  | nil =>
    cases h
    rw [List.append_nil] at hwhole ⊢
    exact hwhole ▸ hs₁
  | cons a as ih =>
    obtain ⟨s₂, es₂, es₃, ha, hrest, rfl⟩ := all_cons_eq_some_iff.mp h
    have hnext : all step s (pre ++ [a]) = some (s₂, es₁ ++ es₂) :=
      all_concat_eq_some_iff.mpr ⟨s₁, es₁, es₂, hpre, ha, rfl⟩
    rw [← List.append_assoc]
    exact ih (by rw [hwhole, List.append_assoc]; rfl) hnext
      (hstep pre a as s₁ es₁ s₂ es₂ hwhole hpre ha hs₁) hrest

/-- What holds of a state and its history and is kept by the steps of a run holds at its end. -/
theorem all_history {I : σ → List α → List ε → Prop} {s t : σ} {as : List α} {es : List ε}
    (hs : I s [] [])
    (hstep : ∀ pre a post s₁ es₁ s₂ es₂, as = pre ++ a :: post → all step s pre = some (s₁, es₁) →
      step s₁ a = some (s₂, es₂) → I s₁ pre es₁ → I s₂ (pre ++ [a]) (es₁ ++ es₂))
    (h : all step s as = some (t, es)) : I t as es :=
  all_history_from hstep rfl rfl hs h

/-- What every step keeps, every run keeps. -/
theorem all_invariant {I : σ → Prop} (hstep : ∀ s a o, I s → step s a = some o → I o.1)
    {s : σ} {as : List α} {o : σ × List ε} (hs : I s) (h : all step s as = some o) : I o.1 := by
  induction as generalizing s o with
  | nil => cases h; exact hs
  | cons a as ih =>
    obtain ⟨s', es₁, es₂, h₁, h₂, -⟩ := all_cons_eq_some_iff.mp h
    exact ih (o := (o.1, es₂)) (hstep s a _ hs h₁) h₂

end Parley.Run
