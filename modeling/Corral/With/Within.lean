import Corral.With.Runs

/-!
# What a `with()` scope leaves alone

* `Keeps`: what every answer and every end of a stage leaves alone, or changes in one way only;
* `Within`: in addition, what the calls of the scope into its stages do to the stack;
* `life_ends`, `life_readies`, …: what becomes of the stages.
-/

namespace Corral.With

open ActionMachine AwaiterStateChecker

variable {Err : Type*} {s t u : State Err}

/-- The calls that `beginStage()`, `onStageDone()` and `doCancel()` make. -/
def Frame.inside : Frame Err → Bool
  | .construct => false
  | .thenFn _ => false
  | .cancelStage _ _ .thenThrew => false
  | .cancelStage _ _ (.markStarted _) => false
  | _ => true

structure Keeps (s u : State Err) : Prop where
  parent : u.parent = s.parent
  signalled : u.signalled = s.signalled
  cancelling : u.cancelling = s.cancelling
  thrown : u.thrown = s.thrown
  executor : u.checker.hasExecutor = s.checker.hasExecutor
  built : u.first.built = s.first.built
  finishes : s.finishes <+: u.finishes
  done : s.first.done = true → u.first.done = true
  asked : notAsked u.checker.state = true → notAsked s.checker.state = true
  alive : u.second.life.alive = true → s.second.life.alive = true
  told : u.finishes = [] → isTold u.checker.state = true → isTold s.checker.state = true

/-- What `beginStage()`, `onStageDone()` and `doCancel()` leave alone. -/
structure Within (s u : State Err) : Prop extends Keeps s u where
  stack : s.stack <:+ u.stack
  fresh : ∀ f ∈ u.stack, f ∈ s.stack ∨ f.inside = true
  stage : s.stage.isSecond = false → u.stage = s.stage

theorem Keeps.refl (s : State Err) : Keeps s s where
  parent := rfl
  signalled := rfl
  cancelling := rfl
  thrown := rfl
  executor := rfl
  built := rfl
  finishes := List.prefix_rfl
  done := id
  asked := id
  alive := id
  told := fun _ => id

theorem Keeps.trans (h₁ : Keeps s t) (h₂ : Keeps t u) : Keeps s u where
  parent := h₂.parent.trans h₁.parent
  signalled := h₂.signalled.trans h₁.signalled
  cancelling := h₂.cancelling.trans h₁.cancelling
  thrown := h₂.thrown.trans h₁.thrown
  executor := h₂.executor.trans h₁.executor
  built := h₂.built.trans h₁.built
  finishes := h₁.finishes.trans h₂.finishes
  done := fun h => h₂.done (h₁.done h)
  asked := fun h => h₁.asked (h₂.asked h)
  alive := fun h => h₁.alive (h₂.alive h)
  told := fun hfin h => h₁.told (List.prefix_nil.1 (hfin ▸ h₂.finishes)) (h₂.told hfin h)

theorem Within.refl (s : State Err) : Within s s :=
  ⟨.refl s, List.suffix_rfl, fun _ hf => .inl hf, fun _ => rfl⟩

theorem Within.trans (h₁ : Within s t) (h₂ : Within t u) : Within s u where
  toKeeps := h₁.toKeeps.trans h₂.toKeeps
  stack := h₁.stack.trans h₂.stack
  fresh := fun f hf => by
    rcases h₂.fresh f hf with h | h
    · exact h₁.fresh f h
    · exact .inr h
  stage := fun h => by
    have ht := h₁.stage h
    exact (h₂.stage (by rw [ht]; exact h)).trans ht

theorem notAsked_resumed {c : Checker} (h : notAsked (c.resumed.getD c).state = true) :
    notAsked c.state = true := by
  obtain ⟨st, ex⟩ := c
  cases st <;> first | rfl | cases h

theorem notAsked_cancelReturned {c : Checker} {early done : Bool}
    (h : notAsked ((if early then c.earlyCancelReturned done
      else c.cancelReturned done).getD c).state = true) : notAsked c.state = true := by
  obtain ⟨st, ex⟩ := c
  cases early <;> cases done <;> cases st <;> first | rfl | cases h

theorem isTold_cancelReturned {c : Checker} {early done : Bool} (hd : done = false)
    (h : isTold ((if early then c.earlyCancelReturned done else c.cancelReturned done).getD c).state =
      true) : isTold c.state = true := by
  subst hd
  obtain ⟨st, ex⟩ := c
  cases early <;> cases st <;> first | rfl | cases h

theorem within_resumeParent : Within s s.resumeParent := by
  unfold State.resumeParent
  split_ifs
  · exact { Within.refl s with
      executor := hasExecutor_resumed _
      finishes := List.prefix_append _ _
      asked := notAsked_resumed
      told := fun h => (by simp at h) }
  · exact .refl s

/-- A stage is called. -/
theorem Within.call {f : Frame Err} (h : Within s u) (hf : f.inside = true) : Within s (u.enter f) :=
  { h with
    stack := h.stack.trans (List.suffix_cons f u.stack)
    fresh := List.forall_mem_cons.2 ⟨.inr hf, h.fresh⟩ }

theorem Within.mark {w : Which} {a : Bool} (h : Within s u) :
    Within s (u.set w { u.get w with cancelling := true, asked := a }) := by
  cases w <;> exact { h with }

theorem within_finish {w : Which} : Within s (s.finish w) := by
  cases w with
  | first => exact { Within.refl s with done := fun _ => rfl }
  | second => exact { Within.refl s with alive := fun h => by cases h }

theorem within_destroySecond {stage : Stage Err} {both : Bool} (hin : s.stage.isSecond = true) :
    Within s (s.destroySecond stage both) := by
  have hu : Within s s.leave :=
    { Within.refl s with stage := fun h => absurd (hin.symm.trans h) (by simp) }
  exact hu.call rfl

theorem within_joins {w : Which} {both ret : Bool} (h : Joins s w both u ret) : Within s u := by
  cases h with
  | last => exact within_resumeParent
  | waits => exact .refl s
  | asks => exact (Within.refl s).mark.call rfl

theorem within_settles {w : Which} {both ret : Bool} (h : Settles s w both u ret) : Within s u := by
  cases h with
  | destroys _ hin => exact within_destroySecond hin
  | takes => exact (Within.refl s).call rfl
  | joins _ h => exact within_joins h

theorem within_ends {w : Which} {both ret : Bool} (h : Ends s w both u ret) : Within s u := by
  cases h with
  | asks => exact within_finish.call rfl
  | settles h => exact within_finish.trans (within_settles h)

theorem within_readies {w : Which} {both ret : Bool} (h : Readies s w both u ret) : Within s u := by
  cases h with
  | ready _ he => exact within_ends he
  | suspends hin =>
    have hidle := (isIn_iff.1 hin).2
    have hs : Within s (s.set w { s.get w with started := true, life := .running }) := by
      cases w with
      | first => exact { Within.refl s with }
      | second => exact { Within.refl s with alive := fun _ => by rw [← get_second, hidle]; rfl }
    exact hs.call rfl

theorem within_begins {w : Which} {both ret : Bool} (h : Begins s w both u ret) : Within s u := by
  cases h with
  | done => exact .refl s
  | early =>
    have hs : Within s (s.set w { s.get w with cancelling := true, asked := (s.get w).asked }) :=
      (Within.refl s).mark
    exact hs.call rfl
  | readies _ _ hr => exact within_readies hr

theorem within_next {both ret : Bool} (h : Continues (State.next both) s ret u) : Within s u := by
  rcases next_cases h with ⟨rfl, -⟩ | ⟨-, -, ret', hb⟩
  · exact .refl _
  · exact within_begins hb

theorem within_cancelReturned {early done : Bool} : Within s (s.cancelReturned early done) :=
  { Within.refl s with
    executor := hasExecutor_cancelReturned _ _ _
    finishes := by
      show s.finishes <+: if done then s.finishes ++ [.cancelled] else s.finishes
      split_ifs
      · exact List.prefix_append _ _
      · exact List.prefix_rfl
    asked := notAsked_cancelReturned
    told := fun h => isTold_cancelReturned (by
      by_contra hd
      simp [State.cancelReturned, show done = true by simpa using hd] at h) }

theorem within_cancelsFirst {early afterSecond : Bool} (h : CancelsFirst s early afterSecond u) :
    Within s u := by
  cases h with
  | returns => exact within_cancelReturned
  | asks => exact ((Within.refl s).mark (w := .first)).call rfl

theorem within_doCancels {early : Bool} (h : DoCancels s early u) : Within s u := by
  cases h with
  | again => exact within_cancelReturned
  | gone _ _ _ h => exact within_cancelsFirst h
  | asks => exact ((Within.refl s).mark (w := .second)).call rfl
  | first _ h => exact within_cancelsFirst h

/-! ### What becomes of the stages -/

theorem life_finish_other (w : Which) : ((s.finish w).get w.other).life = (s.get w.other).life := by
  cases w <;> rfl

theorem life_joins {w : Which} {both ret : Bool} (w' : Which) (h : Joins s w both u ret) :
    (u.get w').life = (s.get w').life ∧ (u.get w').done = (s.get w').done := by
  cases h with
  | last => rw [get_resumeParent]; exact ⟨rfl, rfl⟩
  | waits => exact ⟨rfl, rfl⟩
  | asks => cases w <;> cases w' <;> exact ⟨rfl, rfl⟩

theorem life_settles {w : Which} {both ret : Bool} (w' : Which) (h : Settles s w both u ret) :
    (u.get w').life = (s.get w').life ∧ (u.get w').done = (s.get w').done := by
  cases h with
  | destroys => cases w' <;> exact ⟨rfl, rfl⟩
  | takes => cases w' <;> exact ⟨rfl, rfl⟩
  | joins _ h => exact life_joins w' h

/-- What becomes of the stages when one of them ends. -/
theorem life_ends {w : Which} {both ret : Bool} (h : Ends s w both u ret) :
    (u.get w).done = true ∧ (u.get w).life = .ended ∧
      (u.get w.other).life = (s.get w.other).life := by
  cases h with
  | asks => cases w <;> exact ⟨rfl, rfl, rfl⟩
  | settles h =>
    obtain ⟨h₁, h₂⟩ := life_settles w h
    exact ⟨h₂.trans (done_finish w), h₁.trans (life_finish w),
      (life_settles w.other h).1.trans (life_finish_other w)⟩

theorem life_readies {w : Which} {both ret : Bool} (h : Readies s w both u ret) :
    (u.get w).life ≠ .idle ∧ (u.get w.other).life = (s.get w.other).life := by
  cases h with
  | ready _ he =>
    obtain ⟨-, h₁, h₂⟩ := life_ends he
    exact ⟨by simp [h₁], h₂⟩
  | suspends => cases w <;> exact ⟨by simp [State.enter], rfl⟩

theorem life_cancelsFirst {early afterSecond : Bool} (h : CancelsFirst s early afterSecond u)
    (w : Which) : (u.get w).life = (s.get w).life := by
  cases h <;> cases w <;> rfl

theorem life_doCancels {early : Bool} (h : DoCancels s early u) (w : Which) :
    (u.get w).life = (s.get w).life := by
  cases h with
  | again => cases w <;> rfl
  | gone _ _ _ h => exact life_cancelsFirst h w
  | asks => cases w <;> rfl
  | first _ h => exact life_cancelsFirst h w

/-! ### Every step -/

theorem keeps_pop {below : List (Frame Err)} : Keeps s { s with stack := below } :=
  { Keeps.refl s with }

theorem keeps_refuse {w : Which} {no : Bool} : Keeps s (s.refuse w no) := by
  cases w <;> exact { Keeps.refl s with }

theorem keeps_confirm {w : Which} : Keeps s (s.confirm w) :=
  keeps_refuse.trans within_finish.toKeeps

theorem keeps_next {both ret : Bool} {u v : State Err} (hu : Keeps s u)
    (hcont : Continues (State.next both) u ret v) : Keeps s v :=
  hu.trans (within_next hcont).toKeeps

theorem keeps_answering {a : Action Err} (h : Answering s a t) : Keeps s t := by
  cases h with
  | beginReadies _ hr hcont =>
    exact keeps_next (keeps_pop.trans (within_readies hr).toKeeps) hcont
  | beginConfirms _ _ he hcont =>
    exact keeps_next ((keeps_pop.trans keeps_refuse).trans (within_ends he).toKeeps) hcont
  | refusesDone _ hcont => exact keeps_next keeps_pop hcont
  | refusesDoCancel => exact keeps_pop.trans within_cancelReturned.toKeeps
  | refusesThrew => exact keeps_pop
  | refusesStarted _ hcont => exact keeps_next keeps_pop hcont
  | confirmsDone _ _ hcont =>
    exact keeps_next ((keeps_pop.trans keeps_confirm).trans within_resumeParent.toKeeps) hcont
  | confirmsSecond _ _ h =>
    exact (keeps_pop.trans keeps_confirm).trans (within_cancelsFirst h).toKeeps
  | confirmsFirst => exact (keeps_pop.trans keeps_confirm).trans within_cancelReturned.toKeeps
  | confirmsThrew => exact (keeps_pop.trans keeps_confirm).trans within_resumeParent.toKeeps
  | confirmsStarted _ _ he => exact (keeps_pop.trans keeps_refuse).trans (within_ends he).toKeeps

theorem keeps_ending {a : Action Err} (h : Ending s a t) : Keeps s t := by
  cases h with
  | suspendReturns _ hcont => exact keeps_next keeps_pop hcont
  | @suspendThrows _ _ _ below err _ _ _ _ _ he hcont =>
    have hu : Keeps s ({ s with stack := below }.switchTo (.exception err)) :=
      { Keeps.refl s with }
    exact keeps_next (hu.trans (within_ends he).toKeeps) hcont
  | @suspendFails w =>
    cases w with
    | first => exact { Keeps.refl s with }
    | second => exact { Keeps.refl s with alive := fun h => by cases h }
  | resumes _ he => exact (within_ends he).toKeeps
  | mustResumes _ _ hs hcont =>
    exact keeps_next ((keeps_pop.trans keeps_refuse).trans (within_settles hs).toKeeps) hcont
  | takesResult => exact { Keeps.refl s with }
  | resultThrows => exact { Keeps.refl s with }
  | @destroyed stage _ _ below _ _ _ _ hj hcont =>
    have hu : Keeps s { s with stack := below, stage := stage } := { Keeps.refl s with }
    exact keeps_next (hu.trans (within_joins hj).toKeeps) hcont
  | @destroyedThrown err _ _ _ below _ _ _ _ he hcont =>
    have hu : Keeps s { s with stack := below, stage := .exception err } := { Keeps.refl s with }
    exact keeps_next (hu.trans (within_ends he).toKeeps) hcont

/-- What making the stages leaves alone. -/
theorem keeps_making {a : Action Err} (h : Making s a t) : t.parent = s.parent ∧
    t.checker.hasExecutor = s.checker.hasExecutor ∧
    (t.finishes = [] → isTold t.checker.state = true → isTold s.checker.state = true) := by
  cases h with
  | constructs => exact ⟨rfl, rfl, fun _ => id⟩
  | ignored => exact ⟨rfl, rfl, fun _ => id⟩
  | signals => exact ⟨rfl, rfl, fun _ => id⟩
  | makes => exact ⟨rfl, rfl, fun _ => id⟩
  | makesBegins _ _ hb =>
    have hw := within_begins hb
    exact ⟨hw.parent, hw.executor, hw.told⟩
  | makesCancels => exact ⟨rfl, rfl, fun _ => id⟩
  | throwsWaits => exact ⟨rfl, rfl, fun _ => id⟩
  | @throwsLast _ below err =>
    have hw := within_resumeParent (s := { s with
      stack := below, stage := .exception err, thrown := some err })
    exact ⟨hw.parent, hw.executor, hw.told⟩
  | throwsAsks => exact ⟨rfl, rfl, fun _ => id⟩

theorem ne_of_making {a : Action Err} (h : Making s a t) : a ≠ .awaitSuspend := by
  cases h <;> simp

theorem ne_of_answering {a : Action Err} (h : Answering s a t) : a ≠ .awaitSuspend := by
  have hne : ∀ early done, (answer early done : Action Err) ≠ .awaitSuspend := by
    intro early done
    cases early <;> simp [answer]
  cases h <;> first | exact hne _ _ | simp

theorem ne_of_ending {a : Action Err} (h : Ending s a t) : a ≠ .awaitSuspend := by
  cases h <;> simp

/-- The parent is suspended by `await_suspend()`, once and for all. -/
theorem parent_of_change {a : Action Err} (h : Change s a t) :
    t.parent = s.parent ∧ a ≠ .awaitSuspend ∨ t.parent = true := by
  cases h with
  | @answers w => exact .inl ⟨by cases w <;> rfl, by simp⟩
  | making h => exact .inl ⟨(keeps_making h).1, ne_of_making h⟩
  | answering h => exact .inl ⟨(keeps_answering h).parent, ne_of_answering h⟩
  | ending h => exact .inl ⟨(keeps_ending h).parent, ne_of_ending h⟩
  | preparing h =>
    cases h with
    | ready => exact .inl ⟨rfl, by simp⟩
    | cancelsEarly _ _ _ h => exact .inl ⟨(within_doCancels h).parent, by simp⟩
    | setsExecutor => exact .inl ⟨rfl, by simp⟩
    | suspends _ _ _ h hcont => exact .inr ((within_begins h).trans (within_next hcont)).parent
  | performing h =>
    cases h with
    | cancels _ _ h => exact .inl ⟨(within_doCancels h).parent, by simp⟩
    | mustResume => exact .inl ⟨rfl, by simp⟩
    | takes => exact .inl ⟨rfl, by simp⟩
    | destroys => exact .inl ⟨rfl, by simp⟩

/-- The executor is set once and for all. -/
theorem executor_of_change {a : Action Err} (h : Change s a t) :
    t.checker.hasExecutor = s.checker.hasExecutor ∨ t.checker.hasExecutor = true := by
  cases h with
  | @answers w => exact .inl (by cases w <;> rfl)
  | making h => exact .inl (keeps_making h).2.1
  | answering h => exact .inl (keeps_answering h).executor
  | ending h => exact .inl (keeps_ending h).executor
  | preparing h =>
    cases h with
    | ready _ _ hcheck => exact .inl (readyReturned_hasExecutor hcheck)
    | cancelsEarly _ _ _ h => exact .inl (within_doCancels h).executor
    | setsExecutor _ _ _ hcheck => exact .inr (aboutToSetExecutor_hasExecutor hcheck)
    | suspends _ _ hcheck h hcont =>
      have hw := ((within_begins h).trans (within_next hcont)).executor
      exact .inr (hw.trans (aboutToSuspend_hasExecutor hcheck).2)
  | performing h =>
    cases h with
    | cancels _ _ h => exact .inl (within_doCancels h).executor
    | mustResume => exact .inl rfl
    | takes _ hcheck => exact .inl (aboutToResume_hasExecutor hcheck)
    | destroys => exact .inl rfl

end Corral.With
