import Corral.Promise.Steps

/-!
# `BasePromise`: a task completes once

The events of a task are those of the life of one coroutine (`Life`, which `Stage` refers to): it is
resumed at most once for each suspension, its parent is told one result and then continued, and
nothing comes after that (`Orderly`).

`one_result`: this holds in every run in which `cancel()` is called at most once; the task never
makes a call that it must not make, and wherever it is, it can still be completed.
-/

namespace Corral.BasePromise

open ActionMachine AwaiterStateChecker

variable {s t : State}

/-! ### The statement -/

/-- The events that tell the parent how the task has ended. -/
def Event.tells : Event → Bool
  | .stored _ => true
  | .cancelled => true
  | _ => false

/-- The events of a task that is resumed at most once for each suspension, has told its parent at
most one result, and is over when it has continued it. -/
structure Orderly (log : List Event) : Prop where
  resumed : ∀ l₁ l₂ l₃, log = l₁ ++ .resumed :: (l₂ ++ .resumed :: l₃) → .suspended ∈ l₂
  told : log.countP Event.tells ≤ 1
  continued : ∀ l₁ l₂, log = l₁ ++ .continuation :: l₂ → l₁.countP Event.tells = 1 ∧ l₂ = []

/-- The parent has been told one result and has been continued, once each. -/
def Completed (log : List Event) : Prop :=
  ∃ l ev, log = l ++ [ev, .continuation] ∧ ev.tells = true

/-- `cancel()` is called at most once. -/
def CancelledOnce (s : State) : Action → Prop
  | .cancel => s.asked = false
  | _ => True

instance (s : State) : (a : Action) → Decidable (CancelledOnce s a)
  | .cancel => inferInstanceAs (Decidable (_ = false))
  | .start | .launch | .run | .coAwait _ | .suspendReturns | .suspendThrows | .resume _
  | .cancelReturns _ | .store _ | .finalSuspend => isTrue trivial

/-! ### The events of a life -/

theorem lives_split {l₁ l₂ : List Event} {life : Life} (h : lives (l₁ ++ l₂) = some life) :
    ∃ mid, lives l₁ = some mid ∧ l₂.foldlM Life.next mid = some life := by
  rw [lives, List.foldlM_append] at h
  exact Option.bind_eq_some_iff.1 h

theorem foldlM_cons_eq_some {l : List Event} {ev : Event} {life end_ : Life}
    (h : (ev :: l).foldlM Life.next life = some end_) :
    ∃ mid, life.next ev = some mid ∧ l.foldlM Life.next mid = some end_ := by
  rw [List.foldlM_cons] at h
  exact Option.bind_eq_some_iff.1 h

/-- Only a suspension puts a coroutine to sleep. -/
theorem suspended_of_next {life : Life} {ev : Event} (h : life.next ev = some .asleep)
    (hl : life ≠ .asleep) : ev = .suspended := by
  cases life with
  | asleep => exact absurd rfl hl
  | awake => cases ev <;> first | rfl | cases h
  | ended => cases ev <;> cases h
  | completed => cases h

theorem suspended_mem {l : List Event} {life : Life}
    (h : l.foldlM Life.next life = some .asleep) (hl : life ≠ .asleep) : .suspended ∈ l := by
  induction l generalizing life with
  | nil => exact absurd (Option.some.inj h) hl
  | cons ev l ih =>
    obtain ⟨mid, hev, hrest⟩ := foldlM_cons_eq_some h
    by_cases hm : mid = .asleep
    · subst hm
      exact suspended_of_next hev hl ▸ List.mem_cons_self
    · exact List.mem_cons_of_mem ev (ih hrest hm)

theorem asleep_of_resumed {life mid : Life} (h : life.next .resumed = some mid) :
    life = .asleep ∧ mid = .awake := by
  cases life <;> cases h
  exact ⟨rfl, rfl⟩

theorem ended_of_continuation {life mid : Life} (h : life.next .continuation = some mid) :
    life = .ended ∧ mid = .completed := by
  cases life <;> cases h
  exact ⟨rfl, rfl⟩

/-- How many results the parent has been told. -/
def Life.results : Life → ℕ
  | .asleep => 0
  | .awake => 0
  | .ended => 1
  | .completed => 1

theorem results_next {life mid : Life} {ev : Event} (h : life.next ev = some mid) :
    mid.results = life.results + if ev.tells then 1 else 0 := by
  cases life <;> cases ev <;> cases h <;> rfl

theorem results_eq_countP {l : List Event} {life end_ : Life}
    (h : l.foldlM Life.next life = some end_) :
    end_.results = life.results + l.countP Event.tells := by
  induction l generalizing life with
  | nil =>
    cases Option.some.inj h
    rfl
  | cons ev l ih =>
    obtain ⟨mid, hev, hrest⟩ := foldlM_cons_eq_some h
    rw [ih hrest, results_next hev, List.countP_cons]
    omega

theorem orderly_of_lives {log : List Event} {life : Life} (h : lives log = some life) :
    Orderly log where
  resumed := by
    rintro l₁ l₂ l₃ rfl
    obtain ⟨_, -, h⟩ := lives_split h
    obtain ⟨mid, hres, h⟩ := foldlM_cons_eq_some h
    obtain ⟨-, rfl⟩ := asleep_of_resumed hres
    rw [List.foldlM_append] at h
    obtain ⟨mid, hmid, h⟩ := Option.bind_eq_some_iff.1 h
    obtain ⟨_, hres, -⟩ := foldlM_cons_eq_some h
    obtain ⟨rfl, -⟩ := asleep_of_resumed hres
    exact suspended_mem hmid (by simp)
  told := by
    have hcount : life.results = 0 + log.countP Event.tells := results_eq_countP h
    have hle : life.results ≤ 1 := by cases life <;> simp [Life.results]
    omega
  continued := by
    rintro l₁ l₂ rfl
    obtain ⟨mid, hmid, h⟩ := lives_split h
    obtain ⟨_, hcont, h⟩ := foldlM_cons_eq_some h
    obtain ⟨rfl, rfl⟩ := ended_of_continuation hcont
    refine ⟨?_, ?_⟩
    · have hcount : 1 = 0 + l₁.countP Event.tells := results_eq_countP hmid
      omega
    · cases l₂ with
      | nil => rfl
      | cons ev l₂ =>
        obtain ⟨_, hev, -⟩ := foldlM_cons_eq_some h
        cases hev

/-- The last event of a life. -/
theorem lives_concat {log : List Event} {life : Life} (h : lives log = some life)
    (hl : life ≠ .asleep) : ∃ l ev mid, log = l ++ [ev] ∧ lives l = some mid ∧
      mid.next ev = some life := by
  rcases log.eq_nil_or_concat with rfl | ⟨l, ev, rfl⟩
  · exact absurd (Option.some.inj h).symm hl
  · rw [List.concat_eq_append] at h ⊢
    obtain ⟨mid, hmid, h⟩ := lives_split h
    obtain ⟨_, hev, hend⟩ := foldlM_cons_eq_some h
    cases Option.some.inj hend
    exact ⟨l, ev, mid, rfl, hmid, hev⟩

theorem completed_of_lives {log : List Event} (h : lives log = some .completed) : Completed log := by
  obtain ⟨l, ev, mid, rfl, hl, hev⟩ := lives_concat h (by simp)
  obtain ⟨rfl, rfl⟩ : mid = .ended ∧ ev = .continuation := by
    cases mid <;> cases ev <;> cases hev
    exact ⟨rfl, rfl⟩
  obtain ⟨l, ev, mid, rfl, -, hev⟩ := lives_concat hl (by simp)
  refine ⟨l, ev, by simp, ?_⟩
  cases mid <;> cases ev <;> cases hev <;> rfl

/-! ### The task can always be completed -/

/-- How far the task is from its end, if everyone is quick. -/
def State.remaining (s : State) : ℕ :=
  if s.parent then
    match s.body, s.status with
    | .active, .suspended => 4
    | .active, .ready => if s.launched then 3 else 4
    | .active, .running => 2
    | _, _ => 1
  else 0

theorem Stage.lives (hs : Stage s) : ∃ life, lives s.log = some life := by
  cases hs with
  | created h => exact ⟨_, h.life⟩
  | started h => exact ⟨_, h.life⟩
  | scheduled h => exact ⟨_, h.life⟩
  | executing h => exact ⟨_, h.life⟩
  | awaiting h => exact ⟨_, h.life⟩
  | returning h => exact ⟨_, h.life⟩
  | finished h => exact ⟨_, h.life⟩

theorem Stage.completed (hs : Stage s) (hst : s.started = true) (hp : s.parent = false) :
    Completed s.log := by
  cases hs with
  | created h => cases h.started.symm.trans hst
  | started h => cases h.parent.symm.trans hp
  | scheduled h => cases h.parent.symm.trans hp
  | executing h => cases h.parent.symm.trans hp
  | awaiting h => cases h.parent.symm.trans hp
  | returning h => cases h.parent.symm.trans hp
  | finished h => exact completed_of_lives h.life

/-- The executor, the body or the awaiter brings the task closer to its end. -/
theorem Stage.progress (hs : Stage s) (hst : s.started = true) (hp : s.parent ≠ false) :
    ∃ a t, a ≠ .cancel ∧ step s a = .ok t ∧ t.started = true ∧ t.remaining < s.remaining := by
  have hs' := hs
  cases hs with
  | created h => cases h.started.symm.trans hst
  | started h hre _ hb hon =>
    refine ⟨.launch, { s with launched := true }.doResume, by simp, ?_, hst, ?_⟩
    · simp [step, h.started, h.launched, State.trampoline, hon]
    · simp [State.remaining, State.doResume, h.parent, h.launched, hb, hre]
  | scheduled h hre _ hb =>
    obtain ⟨t, ht, hm⟩ := hs'.run_move (by simp [h.queued])
    refine ⟨.run, t, by simp, ht, ?_⟩
    cases hm with
    | run => exact ⟨hst, by simp [State.remaining, State.record, h.parent, h.launched, hb, hre]⟩
  | executing h hrun _ hb =>
    refine ⟨.store false, _, by simp, (if_pos ⟨hrun, hb⟩).trans (if_pos h.parent), hst, ?_⟩
    simp [State.remaining, State.record, h.parent, hb, hrun]
  | awaiting h hsu hc hb hon =>
    obtain ⟨t, ht, hm⟩ := hs'.resume_move hc (hon.imp And.left And.left) true
    have hfar : s.remaining = 4 := by simp [State.remaining, h.parent, hb, hsu]
    refine ⟨.resume true, t, by simp, ht, ?_⟩
    rw [hfar]
    cases hm with
    | resume =>
      exact ⟨hst, by simp [State.remaining, State.doResume, h.parent, h.launched, hb]⟩
    | resumeAnyway =>
      exact ⟨hst, by simp [State.remaining, State.doResume, h.parent, h.launched, hb]⟩
  | returning h hrun _ hb =>
    refine ⟨.finalSuspend, _, by simp, (if_pos hb).trans (if_pos h.parent), hst, ?_⟩
    simp [State.remaining, State.record, h.parent, hb, hrun]
  | finished h => exact absurd h.parent hp

theorem Reached.exists_completed (hs : Reached s) (hst : s.started = true) :
    ∃ as t, (∀ a ∈ as, a ≠ .cancel) ∧ exec BasePromise.step s as = .ok t ∧
      Completed t.log ∧ t.parent = false := by
  refine exists_run (I := fun s => Reached s ∧ s.started = true) (μ := State.remaining)
    ⟨hs, hst⟩ ?_
  rintro s ⟨hs, hst⟩ hnot
  have hp : s.parent ≠ false := fun hp => hnot ⟨hs.stage.completed hst hp, hp⟩
  obtain ⟨a, t, ha, hstep, hst', hlt⟩ := hs.stage.progress hst hp
  exact ⟨a, t, ha, hstep, ⟨hs.step hstep, hst'⟩, hlt⟩

/-- The `await_cancel()` of the awaiter resumes the handle, and returns `false`. -/
def resumedWithin : List Action :=
  [.start, .launch, .run, .coAwait ⟨false, false, false⟩, .suspendReturns, .cancel, .resume false,
    .cancelReturns false]

end Corral.BasePromise
