import Mathlib.Tactic

/-!
# Histories in which every event was allowed

A history is the list of what has happened so far.  Whether an event may happen depends on the events
before it.

* `Obeys allowed l`: every event of the history `l` was allowed when it happened;
* `Obeys.append`: one more event;
* `Obeys.countP_le_one`: what is allowed only if nothing of its kind has happened before happens at
  most once.
-/

namespace History

universe u
variable {α : Type u} {allowed : List α → α → Prop} {l : List α} {e : α}

/-- Every event was allowed by what had happened before. -/
def Obeys (allowed : List α → α → Prop) (l : List α) : Prop :=
  ∀ before e after, l = before ++ e :: after → allowed before e

theorem obeys_nil : Obeys allowed [] := fun before e after h => by simp at h

theorem Obeys.append (h : Obeys allowed l) (he : allowed l e) : Obeys allowed (l ++ [e]) := by
  intro before e' after heq
  rcases List.eq_nil_or_concat after with rfl | ⟨after, e'', rfl⟩
  · obtain ⟨rfl, h'⟩ := List.append_inj' heq rfl
    cases h'
    exact he
  · have heq' : l ++ [e] = (before ++ e' :: after) ++ [e''] := by simpa using heq
    obtain ⟨rfl, -⟩ := List.append_inj' heq' rfl
    exact h before e' after rfl

theorem Obeys.of_append (h : Obeys allowed (l ++ [e])) : Obeys allowed l ∧ allowed l e :=
  ⟨fun before e' after heq => h before e' (after ++ [e]) (by simp [heq]), h l e [] rfl⟩

/-- An event of a kind that is allowed only once happens at most once. -/
theorem Obeys.countP_le_one {p : α → Bool} (h : Obeys allowed l)
    (hp : ∀ l e, allowed l e → p e = true → ∀ e' ∈ l, p e' = false) : l.countP p ≤ 1 := by
  induction l using List.reverseRecOn with
  | nil => simp
  | append_singleton l e ih =>
    obtain ⟨hl, he⟩ := h.of_append
    rw [List.countP_append, List.countP_singleton]
    split_ifs with hpe
    · have hzero : l.countP p = 0 := List.countP_eq_zero.2 fun e' he' => by simp [hp l e he hpe e' he']
      omega
    · exact ih hl

end History
