import Mathlib.Tactic

/-!
# Traces of a labelled transition relation

A relation `next : S → A → S → Prop` between states, with an event for each transition.

* `Trace next s es t`: the events `es` lead from `s` to `t`;
* `Trace.split`: where an event happens in the middle of a trace;
* `Trace.mem_iff`: a property of the states that one event brings about, and none undoes, tells
  whether that event has happened;
* `Trace.countP_le_one`: events that bring about what excludes them happen at most once.
-/

namespace Transitions

universe u v
variable {S : Type u} {A : Type v} {next : S → A → S → Prop} {s t : S} {es : List A} {e : A}

/-- The events lead from one state to the other. -/
inductive Trace (next : S → A → S → Prop) (s : S) : List A → S → Prop
  | nil : Trace next s [] s
  | concat {es : List A} {e : A} {t u : S} : Trace next s es t → next t e u →
      Trace next s (es ++ [e]) u

/-- The last event of a trace. -/
theorem Trace.of_concat (h : Trace next s (es ++ [e]) t) :
    ∃ u, Trace next s es u ∧ next u e t := by
  generalize hl : es ++ [e] = l at h
  cases h with
  | nil => simp at hl
  | concat h he =>
    obtain ⟨rfl, heq⟩ := List.append_inj' hl rfl
    cases heq
    exact ⟨_, h, he⟩

/-- An event in the middle of a trace. -/
theorem Trace.split {before after : List A} (h : Trace next s (before ++ e :: after) t) :
    ∃ u v, Trace next s before u ∧ next u e v := by
  induction after using List.reverseRecOn generalizing t with
  | nil =>
    obtain ⟨u, hu, he⟩ := h.of_concat
    exact ⟨u, t, hu, he⟩
  | append_singleton after e' ih =>
    rw [← List.cons_append, ← List.append_assoc] at h
    obtain ⟨u, hu, -⟩ := h.of_concat
    exact ih hu

/-- The invariant rule, with the events so far. -/
theorem Trace.invariant {I : List A → S → Prop} (h : Trace next s es t) (h₀ : I [] s)
    (hstep : ∀ es t e u, I es t → next t e u → I (es ++ [e]) u) : I es t := by
  induction h with
  | nil => exact h₀
  | concat _ he ih => exact hstep _ _ _ _ ih he

/-- A property that the event brings about, and that no event undoes. -/
theorem Trace.mem_iff {Q : S → Prop} (h : Trace next s es t) (h₀ : ¬ Q s)
    (hstep : ∀ t e' u, next t e' u → (Q u ↔ Q t ∨ e' = e)) : e ∈ es ↔ Q t := by
  refine h.invariant (I := fun es t => e ∈ es ↔ Q t) (by simpa using h₀) fun es t e' u ih he => ?_
  rw [List.mem_append, List.mem_singleton, ih, hstep t e' u he, eq_comm (a := e)]

/-- Events of a kind that bring about a property which excludes them. -/
theorem Trace.countP_le_one {p : A → Bool} {Q : S → Prop} (h : Trace next s es t)
    (hkeep : ∀ t e u, next t e u → Q t → Q u ∧ p e = false)
    (hget : ∀ t e u, next t e u → p e = true → Q u) : es.countP p ≤ 1 := by
  have hcount : es.countP p ≤ 1 ∧ (es.countP p = 1 → Q t) := by
    refine h.invariant (I := fun es t => es.countP p ≤ 1 ∧ (es.countP p = 1 → Q t)) ?_
      fun es t e u ih he => ?_
    · simp
    · obtain ⟨hle, hone⟩ := ih
      rw [List.countP_append, List.countP_singleton]
      by_cases hp : p e = true
      · -- the first event of the kind
        have hzero : es.countP p ≠ 1 := by
          intro h1
          rw [(hkeep t e u he (hone h1)).2] at hp
          cases hp
        rw [if_pos hp]
        exact ⟨by omega, fun _ => hget t e u he hp⟩
      · rw [if_neg hp, Nat.add_zero]
        exact ⟨hle, fun h1 => (hkeep t e u he (hone h1)).1⟩
  exact hcount.1

end Transitions
