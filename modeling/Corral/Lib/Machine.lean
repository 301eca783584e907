import Mathlib.Tactic

/-!
# Runs of a machine that is driven by actions

A machine is a step function `σ → α → Except ε σ`: the state after an action, or the reason
why the action has no successor.  A run is a list of actions.

* `exec step s as`: execute a run;
* `Meets step ok s as`: every action of the run is taken in a state in which `ok` allows it;
* `Reach step ok s t`: `t` is reached from `s` by steps that `ok` allows, with the invariant
  rules `Reach.invariant` and `Reach.invariant_of`, and `reach_of_exec` for a concrete run;
* `Run step ok s l t`: the same with the list `l` of the steps taken, for properties of what has
  happened before, with the invariant rules `Run.invariant` and `Run.invariant_of`, and
  `events`, what happened in its steps;
* `length_add_le_of_lt` and `exists_run`: with a measure that goes down, runs are bounded, and
  lead to where no more step is required.

The guard `ok` restricts the runs that are considered, never the step itself.
-/

namespace ActionMachine

universe u v w
variable {σ : Type u} {α : Type v} {ε : Type w} (step : σ → α → Except ε σ)

/-- The guard that allows every action. -/
def anyAction (_ : σ) (_ : α) : Prop := True

/-- Execute a run. -/
def exec (s : σ) : List α → Except ε σ
  | [] => .ok s
  | a :: as => match step s a with
    | .ok t => exec t as
    | .error e => .error e

/-- Every action of the run is taken in a state in which `ok` allows it. -/
def Meets (ok : σ → α → Prop) (s : σ) : List α → Prop
  | [] => True
  | a :: as => ok s a ∧ ∀ t, step s a = .ok t → Meets ok t as

/-- `t` is reached from `s` by steps that `ok` allows. -/
inductive Reach (ok : σ → α → Prop) (s : σ) : σ → Prop
  | refl : Reach ok s s
  | tail {t u : σ} {a : α} : Reach ok s t → ok t a → step t a = .ok u → Reach ok s u

/-- What a computation that was mapped over yielded. -/
theorem map_eq_ok {β γ : Type*} {f : β → γ} {x : Except ε β} {c : γ} :
    x.map f = .ok c ↔ ∃ b, x = .ok b ∧ f b = c := by
  cases x <;> simp [Except.map]

/-- What a computation in two parts yielded. -/
theorem bind_eq_ok {β γ : Type*} {x : Except ε β} {f : β → Except ε γ} {c : γ} :
    x.bind f = .ok c ↔ ∃ b, x = .ok b ∧ f b = .ok c := by
  cases x <;> simp [Except.bind]

variable {step} {ok : σ → α → Prop}

@[simp] theorem exec_nil (s : σ) : exec step s [] = .ok s := rfl

theorem exec_cons_ok {s t : σ} {a : α} {as : List α} (h : step s a = .ok t) :
    exec step s (a :: as) = exec step t as := by
  simp only [exec, h]

/-- The first step of a run that executes. -/
theorem exec_cons_eq_ok {s u : σ} {a : α} {as : List α} (h : exec step s (a :: as) = .ok u) :
    ∃ t, step s a = .ok t ∧ exec step t as = .ok u := by
  cases hs : step s a with
  | error e => simp [exec, hs] at h
  | ok t => exact ⟨t, rfl, by rwa [exec_cons_ok hs] at h⟩

theorem exec_concat {s t u : σ} {a : α} {as : List α} (h : exec step s as = .ok t)
    (ha : step t a = .ok u) : exec step s (as ++ [a]) = .ok u := by
  induction as generalizing s with
  | nil => cases h; rw [List.nil_append, exec_cons_ok ha, exec_nil]
  | cons b bs ih =>
    obtain ⟨v, hv, hvs⟩ := exec_cons_eq_ok h
    rw [List.cons_append, exec_cons_ok hv]
    exact ih hvs

/-- A run in two parts. -/
theorem exec_append_eq_ok {s u : σ} {as bs : List α} (h : exec step s (as ++ bs) = .ok u) :
    ∃ t, exec step s as = .ok t ∧ exec step t bs = .ok u := by
  induction as generalizing s with
  | nil => exact ⟨s, rfl, h⟩
  | cons a as ih =>
    obtain ⟨v, hv, hvs⟩ := exec_cons_eq_ok h
    obtain ⟨t, ht, hu⟩ := ih hvs
    exact ⟨t, by rwa [exec_cons_ok hv], hu⟩

theorem meets_cons {s t : σ} {a : α} {as : List α} (h : step s a = .ok t) :
    Meets step ok s (a :: as) ↔ ok s a ∧ Meets step ok t as := by
  simp only [Meets, h, Except.ok.injEq, forall_eq']

/-- Whether a run meets a decidable guard is decided by executing it. -/
def decidableMeets [∀ s a, Decidable (ok s a)] (s : σ) :
    (as : List α) → Decidable (Meets step ok s as)
  | [] => isTrue trivial
  | a :: as => match h : step s a with
    | .ok t =>
      have := decidableMeets t as
      decidable_of_iff (ok s a ∧ Meets step ok t as) (meets_cons h).symm
    | .error _ => decidable_of_iff (ok s a) ⟨fun hok => ⟨hok, by simp [h]⟩, And.left⟩

instance [∀ s a, Decidable (ok s a)] (s : σ) (as : List α) : Decidable (Meets step ok s as) :=
  decidableMeets s as

theorem Reach.trans {s t u : σ} (h₁ : Reach step ok s t) (h₂ : Reach step ok t u) :
    Reach step ok s u := by
  induction h₂ with
  | refl => exact h₁
  | tail _ hok hs ih => exact ih.tail hok hs

theorem Reach.head {s t u : σ} {a : α} (hok : ok s a) (hs : step s a = .ok t)
    (h : Reach step ok t u) : Reach step ok s u :=
  (Reach.refl.tail hok hs).trans h

/-- A weaker guard allows every run that a stronger one allows. -/
theorem Reach.mono {ok' : σ → α → Prop} (hle : ∀ s a, ok s a → ok' s a) {s t : σ}
    (h : Reach step ok s t) : Reach step ok' s t := by
  induction h with
  | refl => exact .refl
  | tail _ hok hs ih => exact ih.tail (hle _ _ hok) hs

theorem reach_of_exec {s t : σ} {as : List α} (hm : Meets step ok s as)
    (h : exec step s as = .ok t) : Reach step ok s t := by
  induction as generalizing s with
  | nil => cases h; exact .refl
  | cons a as ih =>
    obtain ⟨v, hv, hvs⟩ := exec_cons_eq_ok h
    exact .head hm.1 hv (ih (hm.2 v hv) hvs)

/-- A guard that does not depend on the state. -/
theorem meets_of_forall {as : List α} (h : ∀ a ∈ as, ∀ s, ok s a) (s : σ) :
    Meets step ok s as := by
  induction as generalizing s with
  | nil => trivial
  | cons a as ih =>
    refine ⟨h a List.mem_cons_self s, fun t _ => ih (fun b hb => ?_) t⟩
    exact h b (List.mem_cons_of_mem a hb)

/-- Without a guard, every run that executes leads to a reached state. -/
theorem reach_of_run {s t : σ} {l : List α} (h : exec step s l = .ok t) :
    Reach step anyAction s t := reach_of_exec (meets_of_forall (fun _ _ _ => trivial) s) h

/-- The invariant rule: what holds at the start and is kept by every allowed step holds in
every reached state. -/
theorem Reach.invariant {I : σ → Prop} {s t : σ} (h : Reach step ok s t) (h₀ : I s)
    (hstep : ∀ s a t, I s → ok s a → step s a = .ok t → I t) : I t := by
  induction h with
  | refl => exact h₀
  | tail _ hok hs ih => exact hstep _ _ _ ih hok hs

/-- The invariant rule on top of an invariant `J` that is already known of every reached
state. -/
theorem Reach.invariant_of {I J : σ → Prop} {s t : σ} (h : Reach step ok s t)
    (hJ : ∀ t, Reach step ok s t → J t) (h₀ : I s)
    (hstep : ∀ s a t, J s → I s → ok s a → step s a = .ok t → I t) : I t := by
  induction h with
  | refl => exact h₀
  | tail hr hok hs ih => exact hstep _ _ _ (hJ _ hr) ih hok hs

/-- A measure that every allowed step lowers, in the states that satisfy an invariant, bounds the
length of a run. -/
theorem length_add_le_of_lt {I : σ → Prop} {μ : σ → ℕ} {s t : σ} {as : List α}
    (hm : Meets step ok s as) (h : exec step s as = .ok t) (h₀ : I s)
    (hinv : ∀ s a t, I s → ok s a → step s a = .ok t → I t)
    (hlt : ∀ s a t, I s → ok s a → step s a = .ok t → μ t < μ s) : as.length + μ t ≤ μ s := by
  induction as generalizing s with
  | nil => cases h; simp
  | cons a as ih =>
    obtain ⟨u, hu, hrun⟩ := exec_cons_eq_ok h
    have hrest := ih (hm.2 u hu) hrun (hinv s a u h₀ hm.1 hu)
    have hfirst := hlt s a u h₀ hm.1 hu
    rw [List.length_cons]
    omega

/-- The progress rule: where every state of the invariant `I` in which `D` does not hold has a step
by an action of `P` that keeps `I` and lowers a measure, such actions lead to a state with `D`. -/
theorem exists_run {I D : σ → Prop} {P : α → Prop} {μ : σ → ℕ} {s : σ} (h₀ : I s)
    (hstep : ∀ s, I s → ¬ D s → ∃ a t, P a ∧ step s a = .ok t ∧ I t ∧ μ t < μ s) :
    ∃ as t, (∀ a ∈ as, P a) ∧ exec step s as = .ok t ∧ D t := by
  induction hn : μ s using Nat.strong_induction_on generalizing s with
  | _ n ih =>
    by_cases hd : D s
    · exact ⟨[], s, by simp, rfl, hd⟩
    · obtain ⟨a, t, ha, hs, hi, hlt⟩ := hstep s h₀ hd
      obtain ⟨as, u, has, hu, hend⟩ := ih _ (hn ▸ hlt) hi rfl
      exact ⟨a :: as, u, List.forall_mem_cons.2 ⟨ha, has⟩, (exec_cons_ok hs).trans hu, hend⟩

/-! ### Runs with their history -/

/-- `t` is reached from `s` by steps that `ok` allows, and `l` lists them: the state each of them
was taken in, and the action. -/
inductive Run (step : σ → α → Except ε σ) (ok : σ → α → Prop) (s : σ) : List (σ × α) → σ → Prop
  | nil : Run step ok s [] s
  | concat {l : List (σ × α)} {t u : σ} {a : α} : Run step ok s l t → ok t a → step t a = .ok u →
      Run step ok s (l ++ [(t, a)]) u

/-- The steps that a run takes. -/
def history (step : σ → α → Except ε σ) (s : σ) : List α → List (σ × α)
  | [] => []
  | a :: as => (s, a) :: match step s a with
    | .ok t => history step t as
    | .error _ => []

theorem Run.reach {l : List (σ × α)} {s t : σ} (h : Run step ok s l t) : Reach step ok s t := by
  induction h with
  | nil => exact .refl
  | concat _ hok hs ih => exact ih.tail hok hs

theorem Run.cons {l : List (σ × α)} {s t u : σ} {a : α} (hok : ok s a) (hs : step s a = .ok t)
    (h : Run step ok t l u) : Run step ok s ((s, a) :: l) u := by
  induction h with
  | nil => exact Run.nil.concat hok hs
  | concat _ hok' hs' ih => exact ih.concat hok' hs'

theorem run_of_exec {s t : σ} {as : List α} (hm : Meets step ok s as)
    (h : exec step s as = .ok t) : Run step ok s (history step s as) t := by
  induction as generalizing s with
  | nil => cases h; exact .nil
  | cons a as ih =>
    obtain ⟨v, hv, hvs⟩ := exec_cons_eq_ok h
    simp only [history, hv]
    exact .cons hm.1 hv (ih (hm.2 v hv) hvs)

/-- A run goes on from each of its steps. -/
theorem Run.split {l : List (σ × α)} {s t u : σ} {a : α} (h : Run step ok s l t)
    (hm : (u, a) ∈ l) : ∃ l₁ l₂ v, l = l₁ ++ (u, a) :: l₂ ∧ Run step ok s l₁ u ∧ ok u a ∧
      step u a = .ok v ∧ Run step ok v l₂ t := by
  induction h with
  | nil => cases hm
  | concat hr hok hs ih =>
    rcases List.mem_append.1 hm with hold | hlast
    · obtain ⟨l₁, l₂, v, rfl, hr₁, hok₁, hs₁, hr₂⟩ := ih hold
      exact ⟨l₁, l₂ ++ [_], v, by simp, hr₁, hok₁, hs₁, hr₂.concat hok hs⟩
    · cases List.mem_singleton.1 hlast
      exact ⟨_, [], _, rfl, hr, hok, hs, .nil⟩

/-- The invariant rule for properties of the state and of what has happened before. -/
theorem Run.invariant {I : List (σ × α) → σ → Prop} {l : List (σ × α)} {s t : σ}
    (h : Run step ok s l t) (h₀ : I [] s)
    (hstep : ∀ l s a t, I l s → ok s a → step s a = .ok t → I (l ++ [(s, a)]) t) : I l t := by
  induction h with
  | nil => exact h₀
  | concat _ hok hs ih => exact hstep _ _ _ _ ih hok hs

/-- The same on top of an invariant `J` that is already known of every run. -/
theorem Run.invariant_of {I J : List (σ × α) → σ → Prop} {l : List (σ × α)} {s t : σ}
    (h : Run step ok s l t) (hJ : ∀ l t, Run step ok s l t → J l t) (h₀ : I [] s)
    (hstep : ∀ l s a t, J l s → I l s → ok s a → step s a = .ok t → I (l ++ [(s, a)]) t) :
    I l t := by
  induction h with
  | nil => exact h₀
  | concat hr hok hs ih => exact hstep _ _ _ _ (hJ _ _ hr) ih hok hs

/-- What happened in the steps of a run, where `ev` says what happens in a step. -/
def events {β : Type*} (ev : σ → α → Option β) (l : List (σ × α)) : List β :=
  l.filterMap fun x => ev x.1 x.2

@[simp] theorem events_nil {β : Type*} (ev : σ → α → Option β) : events ev [] = [] := rfl

theorem events_append {β : Type*} (ev : σ → α → Option β) (l₁ l₂ : List (σ × α)) :
    events ev (l₁ ++ l₂) = events ev l₁ ++ events ev l₂ := List.filterMap_append

theorem events_cons {β : Type*} (ev : σ → α → Option β) (s : σ) (a : α) (l : List (σ × α)) :
    events ev ((s, a) :: l) = (ev s a).toList ++ events ev l := by
  rw [events, List.filterMap_cons]
  cases ev s a <;> rfl

theorem events_concat {β : Type*} (ev : σ → α → Option β) (l : List (σ × α)) (s : σ) (a : α) :
    events ev (l ++ [(s, a)]) = events ev l ++ (ev s a).toList := by
  rw [events, List.filterMap_append]
  cases h : ev s a <;> simp [events, h]

end ActionMachine
