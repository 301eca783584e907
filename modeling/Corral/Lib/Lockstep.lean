import Corral.Lib.Machine

/-!
# Two machines in lockstep

Two machines that take the same actions, and a relation between their states.

* `Matches R e x y`: both computations yield related results, or both fail with `e`;
* `exec_matches_of`, `exec_matches`: if related states are taken to related states by every action, then a run of one
  machine is a run of the other.
-/

namespace ActionMachine

variable {σ τ : Type*} {α : Type*} {ε : Type*} {R : σ → τ → Prop} {e : ε}

/-- Both computations yield related results, or both fail with `e`. -/
inductive Matches (R : σ → τ → Prop) (e : ε) : Except ε σ → Except ε τ → Prop
  | ok {s : σ} {t : τ} : R s t → Matches R e (.ok s) (.ok t)
  | error : Matches R e (.error e) (.error e)

theorem Matches.mono {R' : σ → τ → Prop} {x : Except ε σ} {y : Except ε τ}
    (h : Matches R e x y) (hle : ∀ s t, R s t → R' s t) : Matches R' e x y := by
  cases h with
  | ok h => exact .ok (hle _ _ h)
  | error => exact .error

variable {step : σ → α → Except ε σ} {step' : τ → α → Except ε τ} {ok : σ → α → Prop}

/-- Runs of two machines whose steps match, whichever of the errors in `E` they fail with. -/
theorem exec_matches_of {E : ε → Prop} (he : E e)
    (hstep : ∀ s t a, R s t → ok s a → ∃ e, E e ∧ Matches R e (step s a) (step' t a)) {s : σ} {t : τ}
    (h : R s t) {l : List α} (hl : Meets step ok s l) :
    ∃ e, E e ∧ Matches R e (exec step s l) (exec step' t l) := by
  induction l generalizing s t with
  | nil => exact ⟨e, he, .ok h⟩
  | cons a l ih =>
    obtain ⟨e', he', hm⟩ := hstep s t a h hl.1
    cases hs : step s a with
    | error e₁ =>
      cases ht : step' t a with
      | error e₂ =>
        rw [hs, ht] at hm
        cases hm
        refine ⟨e', he', ?_⟩
        simp only [exec, hs, ht]
        exact .error
      | ok v =>
        rw [hs, ht] at hm
        cases hm
    | ok u =>
      cases ht : step' t a with
      | error e₂ =>
        rw [hs, ht] at hm
        cases hm
      | ok v =>
        rw [hs, ht] at hm
        rw [exec_cons_ok hs, exec_cons_ok ht]
        cases hm with
        | ok huv => exact ih huv (hl.2 u hs)

/-- Runs of two machines whose steps match. -/
theorem exec_matches
    (hstep : ∀ s t a, R s t → ok s a → Matches R e (step s a) (step' t a)) {s : σ} {t : τ}
    (h : R s t) {l : List α} (hl : Meets step ok s l) :
    Matches R e (exec step s l) (exec step' t l) := by
  have hstep' : ∀ s t a, R s t → ok s a → ∃ e', e' = e ∧ Matches R e' (step s a) (step' t a) :=
    fun s t a h ha => ⟨e, rfl, hstep s t a h ha⟩
  obtain ⟨e', rfl, hm⟩ := exec_matches_of (E := (· = e)) rfl hstep' h hl
  exact hm

end ActionMachine
