import Corral.Promise.Steps

/-!
# `BasePromise`: a cancellation request is not forgotten

While a task is suspended the request is kept in its trampoline, otherwise in `cancelState_`
(`Kept`), and each of its awaiters is asked about it (`Remembers`).

`hookAwaitSuspend()` notes whether a cancellation is pending before it calls `await_suspend()`, and
if that throws, its exception handler restores what was noted.  A `cancel()` that arrives in
between, from within `await_suspend()`, goes to the trampoline, and is lost with it.  In every run
without such an exception (`Heeded`) the request is kept, and after every such exception it is lost
(`request_remembered`).
-/

namespace Corral.BasePromise

open ActionMachine AwaiterStateChecker

variable {s t : State}

/-! ### The statement -/

/-- The task remembers a request for its cancellation: it asks the awaiter of a co_await whether it
can be cancelled early, and ends as soon as an awaiter lets itself be cancelled. -/
structure Remembers (s : State) : Prop where
  asks : ∀ ans : Answers, s.status = .running → s.body = .active → ∃ t l,
    step s (.coAwait ans) = .ok t ∧
      t.log = s.log ++ .suspended :: .askedEarly ans.earlyCancel :: l ∧
      (ans.earlyCancel = true ∨ ans.ready = true ∧ ans.mustResume = false →
        l = [.cancelled, .continuation] ∧ t.live = false)
  ends : ∀ a t, a = .resume false ∨ a = .cancelReturns true → step s a = .ok t →
    t.log = s.log ++ [.cancelled, .continuation] ∧ t.live = false

/-- The task has been cancelled since its `await_suspend()` was entered. -/
def State.cancelledWithin (s : State) : Bool := match s.stack with
  | .awaitSuspend _ false :: _ => s.asked
  | _ => false

/-- `await_suspend()` does not throw after the task has been cancelled from within it. -/
def Heeded (s : State) : Action → Prop
  | .suspendThrows => s.cancelledWithin = false
  | _ => True

instance (s : State) : (a : Action) → Decidable (Heeded s a)
  | .suspendThrows => inferInstanceAs (Decidable (_ = false))
  | .start | .launch | .cancel | .run | .coAwait _ | .suspendReturns | .resume _
  | .cancelReturns _ | .store _ | .finalSuspend => isTrue trivial

/-! ### Where the request is kept -/

/-- Where the request for the cancellation of a task is kept. -/
structure Kept (s : State) : Prop where
  suspended : s.asked = true → s.live = true → s.status = .suspended →
    s.onResume = .doResumeAfterCancel
  otherwise : s.asked = true → s.live = true → s.status ≠ .suspended → s.cancelRequested = true

theorem kept_init : Kept .init where
  suspended := by rintro ⟨⟩
  otherwise := by rintro ⟨⟩

theorem Stands.live {la : Bool} {n : ℕ} {life : Life} (h : Stands s true true la n life) :
    s.live = true := by
  simp [State.live, h.parent]

theorem live_endCancelled (h : s.started = true) : s.endCancelled.live = false := by
  simp [State.live, State.endCancelled, State.record, h]

/-- A task that has ended has nothing to keep. -/
theorem kept_of_finished (h : t.live = false) : Kept t where
  suspended := fun _ hl => by simp [h] at hl
  otherwise := fun _ hl => by simp [h] at hl

/-- A task that is not suspended, and whose `cancelState_` is what it was. -/
theorem Kept.of_eq (hk : Kept s) (hs : s.live = true) (hst : s.status ≠ .suspended)
    (ht : t.status ≠ .suspended) (ha : t.asked = s.asked)
    (hreq : t.cancelRequested = s.cancelRequested) : Kept t where
  suspended := fun _ _ h => absurd h ht
  otherwise := fun h _ _ => hreq.trans (hk.otherwise (ha.symm.trans h) hs hst)

/-- A task that is executed and has no request pending has not been cancelled. -/
theorem Kept.not_asked (hk : Kept s) (hl : s.live = true) (hst : s.status ≠ .suspended)
    (hreq : s.cancelRequested = false) : s.asked = false := by
  by_contra ha
  have hreq' := hk.otherwise (by simpa using ha) hl hst
  cases hreq.symm.trans hreq'

/-- A task that is not suspended and has the request pending. -/
theorem Kept.of_requested (ht : t.status ≠ .suspended) (hreq : t.cancelRequested = true) :
    Kept t where
  suspended := fun _ _ h => absurd h ht
  otherwise := fun _ _ _ => hreq

/-- A task that is suspended and intercepts its resumption. -/
theorem Kept.of_intercepted (ht : t.status = .suspended)
    (hon : t.onResume = .doResumeAfterCancel) : Kept t where
  suspended := fun _ _ _ => hon
  otherwise := fun _ _ h => absurd ht h

theorem Kept.of_not_asked (h : t.asked = false) : Kept t where
  suspended := fun ha => by simp [h] at ha
  otherwise := fun ha => by simp [h] at ha

theorem Kept.coAwait {ans : Answers} (hs : Reached s) (hk : Kept s)
    (h : Move s (.coAwait ans) t) : Kept t := by
  obtain ⟨hrun, hb⟩ := h.of_coAwait
  obtain ⟨hst, -⟩ := hs.stage.parent_of_running hrun (by simp [hb])
  have hns : s.status ≠ .suspended := by simp [hrun]
  cases h with
  | readyNow _ _ hreq => exact .of_not_asked (hk.not_asked hst.live hns hreq)
  | suspend _ _ hreq => exact .of_not_asked (hk.not_asked hst.live hns hreq)
  | earlyCancelled => exact kept_of_finished (live_endCancelled hst.started)
  | readyCancelled => exact kept_of_finished (live_endCancelled hst.started)
  | readyResumed => exact .of_requested (by simp [State.doResume, State.record]) rfl
  | suspendPending => exact .of_intercepted rfl rfl

/-- Every step that is heeded keeps the request. -/
theorem Kept.move {a : Action} (hs : Reached s) (hk : Kept s) (hok : Heeded s a)
    (h : Move s a t) : Kept t := by
  cases h with
  | start hst =>
    obtain ⟨-, hre, -⟩ := hs.stage.created_of_not_started hst
    exact hk.of_eq (by simp [State.live, hst]) (by simp [hre]) (by simp [hre]) rfl rfl
  | launch hst hl =>
    obtain ⟨hst, hre, -⟩ := hs.stage.started_of_not_launched hst hl
    exact hk.of_eq hst.live (by simp [hre]) (by simp [State.doResume]) rfl rfl
  | cancel _ hns => exact .of_requested hns rfl
  | cancelAwaiter _ hsu => exact .of_intercepted hsu rfl
  | run hq =>
    obtain ⟨hst, hre, -⟩ := hs.stage.scheduled_of_queued hq
    exact hk.of_eq hst.live (by simp [hre]) (by simp [State.record]) rfl rfl
  | readyNow h₁ h₂ h₃ h₄ => exact .coAwait hs hk (.readyNow h₁ h₂ h₃ h₄)
  | suspend h₁ h₂ h₃ h₄ => exact .coAwait hs hk (.suspend h₁ h₂ h₃ h₄)
  | earlyCancelled h₁ h₂ h₃ h₄ => exact .coAwait hs hk (.earlyCancelled h₁ h₂ h₃ h₄)
  | readyCancelled h₁ h₂ h₃ h₄ h₅ h₆ => exact .coAwait hs hk (.readyCancelled h₁ h₂ h₃ h₄ h₅ h₆)
  | readyResumed h₁ h₂ h₃ h₄ h₅ h₆ => exact .coAwait hs hk (.readyResumed h₁ h₂ h₃ h₄ h₅ h₆)
  | suspendPending h₁ h₂ h₃ h₄ h₅ => exact .coAwait hs hk (.suspendPending h₁ h₂ h₃ h₄ h₅)
  | suspendReturns => exact ⟨hk.suspended, hk.otherwise⟩
  | @suspendThrows _ req _ hstack =>
    cases req with
    | true => exact .of_requested (by simp [State.record]) rfl
    | false =>
      have ha : s.cancelledWithin = s.asked := by simp only [State.cancelledWithin, hstack]
      exact .of_not_asked (ha.symm.trans hok)
  | resume hc hrun =>
    obtain ⟨hst, hsu, -, ⟨-, hon⟩ | ⟨hcan, -⟩⟩ := hs.stage.of_inProgress hc (.inl hrun)
    · have ha : s.asked = false := by
        by_contra ha
        cases hon.symm.trans (hk.suspended (by simpa using ha) hst.live hsu)
      exact .of_not_asked ha
    · cases hrun.symm.trans hcan
  | resumeAnyway => exact .of_requested (by simp [State.doResume]) rfl
  | resumeCancelled hc hcan =>
    obtain ⟨hst, -⟩ := hs.stage.of_inProgress hc (.inr hcan)
    exact kept_of_finished (live_endCancelled hst.started)
  | cancelRefused => exact ⟨hk.suspended, hk.otherwise⟩
  | cancelConfirmed _ hc hcan =>
    obtain ⟨hst, -⟩ := hs.stage.of_inProgress hc (.inr hcan)
    exact kept_of_finished (live_endCancelled hst.started)
  | store hrun hb =>
    obtain ⟨hst, -⟩ := hs.stage.parent_of_running hrun (by simp [hb])
    exact hk.of_eq hst.live (by simp [hrun]) (by simp [State.record, hrun]) rfl rfl
  | finalSuspend hb =>
    obtain ⟨hst, -⟩ := hs.stage.returning_of_returned hb
    exact kept_of_finished (by simp [State.live, State.record, hst.started])

theorem kept_of_reach (h : Reach step Heeded .init s) : Kept s :=
  h.invariant_of (fun _ => reached_of_reach) kept_init fun _ _ _ hs hk hok hstep =>
    hk.move hs hok (move_of_step hs.stage hstep)

/-! ### What it is kept for -/

theorem Kept.remembers (hs : Reached s) (hk : Kept s) (ha : s.asked = true) (hl : s.live = true) :
    Remembers s where
  asks := by
    intro ans hrun hb
    obtain ⟨hst, -⟩ := hs.stage.parent_of_running hrun (by simp [hb])
    obtain ⟨t, ht, hm⟩ := coAwait_move hrun hb hst.parent ans
    have hstep : step s (.coAwait ans) = .ok t := (if_pos ⟨hrun, hb⟩).trans ht
    have hreq := hk.otherwise ha hl (by simp [hrun])
    cases hm with
    | readyNow _ _ hno => cases hreq.symm.trans hno
    | suspend _ _ hno => cases hreq.symm.trans hno
    | earlyCancelled _ _ _ he =>
      refine ⟨_, [.cancelled, .continuation], hstep, ?_, fun _ => ⟨rfl, ?_⟩⟩
      · simp [State.endCancelled, State.record, State.suspendOn, he]
      · exact live_endCancelled hst.started
    | readyCancelled _ _ _ he =>
      refine ⟨_, [.cancelled, .continuation], hstep, ?_, fun _ => ⟨rfl, ?_⟩⟩
      · simp [State.endCancelled, State.record, State.suspendOn, he]
      · exact live_endCancelled hst.started
    | readyResumed _ _ _ he _ hm =>
      refine ⟨_, [], hstep, ?_, ?_⟩
      · simp [State.doResume, State.record, State.suspendOn, he]
      · simp [he, hm]
    | suspendPending _ _ _ he hr =>
      refine ⟨_, [], hstep, ?_, ?_⟩
      · simp [State.record, State.suspendOn, he]
      · simp [he, hr]
  ends := by
    intro a t hcan hstep
    have hm := move_of_step hs.stage hstep
    rcases hcan with rfl | rfl
    · cases hm with
      | resume hc hrun =>
        obtain ⟨-, hsu, -, ⟨-, hon⟩ | ⟨hcan, -⟩⟩ := hs.stage.of_inProgress hc (.inl hrun)
        · cases hon.symm.trans (hk.suspended ha hl hsu)
        · cases hrun.symm.trans hcan
      | resumeCancelled hc hcan =>
        obtain ⟨hst, -⟩ := hs.stage.of_inProgress hc (.inr hcan)
        refine ⟨?_, live_endCancelled hst.started⟩
        simp [State.endCancelled, State.record]
    · cases hm with
      | cancelConfirmed _ hc hcan =>
        obtain ⟨hst, -⟩ := hs.stage.of_inProgress hc (.inr hcan)
        refine ⟨?_, live_endCancelled hst.started⟩
        simp [State.endCancelled, State.record]

/-- A task that has been cancelled but is executed with no request pending has forgotten it: an
awaiter that is ready is not asked any more. -/
theorem not_remembers (hs : Reached s) (hrun : s.status = .running) (hb : s.body = .active)
    (hreq : s.cancelRequested = false) : ¬ Remembers s := by
  intro h
  obtain ⟨t, l, hstep, hlog, -⟩ := h.asks ⟨true, true, true⟩ hrun hb
  have hm := move_of_step hs.stage hstep
  cases hm with
  | readyNow => simp at hlog
  | suspend _ _ _ hr => cases hr
  | earlyCancelled _ _ hno => cases hreq.symm.trans hno
  | readyCancelled _ _ hno => cases hreq.symm.trans hno
  | readyResumed _ _ hno => cases hreq.symm.trans hno
  | suspendPending _ _ hno => cases hreq.symm.trans hno

/-- As long as no `await_suspend()` throws after a cancellation that has arrived within it, a task
remembers the request for its cancellation until it is finished; and such an exception is what makes
it forget. -/
theorem request_remembered (h : Reach step Heeded .init s) :
    (s.asked = true → s.live = true → Remembers s) ∧
      ∀ a t, step s a = .ok t → t.asked = true → t.live = true → (Remembers t ↔ Heeded s a) := by
  have hs := reached_of_reach h
  have hk := kept_of_reach h
  refine ⟨hk.remembers hs, ?_⟩
  intro a t hstep ha hl
  have hm := move_of_step hs.stage hstep
  constructor
  · intro hrem
    cases hm with
    | @suspendThrows _ req _ hstack hc hp =>
      obtain ⟨-, -, hb, -⟩ := hs.stage.of_inProgress hc hp
      cases req with
      | true => simp only [Heeded, State.cancelledWithin, hstack]
      | false => exact absurd hrem (not_remembers (hs.step hstep) rfl hb rfl)
    | _ => trivial
  · intro hok
    exact (hk.move hs hok hm).remembers (hs.step hstep) ha hl

/-- A task is cancelled before it is started; the `await_suspend()` of its first awaiter throws, and
its second awaiter cancels early. -/
def cancelledBefore : List Action :=
  [.start, .cancel, .launch, .run, .coAwait ⟨false, false, false⟩, .suspendThrows]

theorem request_remembered_cancelledBefore :
    ∃ s t l, exec step .init cancelledBefore = .ok s ∧
      step s (.coAwait ⟨true, false, false⟩) = .ok t ∧
      t.log = s.log ++ .suspended :: .askedEarly true :: l ∧ t.live = false := by
  have hrun : ∃ s, exec step .init cancelledBefore = .ok s ∧ Reach step Heeded .init s ∧
      s.asked = true ∧ s.live = true ∧ s.status = .running ∧ s.body = .active := by
    have hm : Meets step Heeded .init cancelledBefore := by decide
    exact ⟨_, rfl, reach_of_exec hm rfl, rfl, rfl, rfl, rfl⟩
  obtain ⟨s, he, hr, ha, hl, hst, hb⟩ := hrun
  obtain ⟨t, l, hstep, hlog, hend⟩ :=
    ((request_remembered hr).1 ha hl).asks ⟨true, false, false⟩ hst hb
  exact ⟨s, t, l, he, hstep, hlog, (hend (.inl rfl)).2⟩

/-- The same, but the task is cancelled from within the `await_suspend()` that throws. -/
def cancelledInside : List Action :=
  [.start, .launch, .run, .coAwait ⟨false, false, false⟩, .cancel, .cancelReturns false,
    .suspendThrows]

/-- So a task can forget that it has been cancelled. -/
theorem not_request_remembered :
    ¬ ∀ s, Reach step anyAction .init s → s.asked = true → s.live = true → Remembers s := by
  intro h
  have hrun : ∃ s, exec step .init cancelledInside = .ok s ∧ s.asked = true ∧ s.live = true ∧
      s.status = .running ∧ s.body = .active ∧ s.cancelRequested = false :=
    ⟨_, rfl, rfl, rfl, rfl, rfl, rfl⟩
  obtain ⟨s, he, ha, hl, hst, hb, hreq⟩ := hrun
  have hr : Reach step anyAction .init s := reach_of_run he
  exact not_remembers (reached_of_reach hr) hst hb hreq (h s hr ha hl)

end Corral.BasePromise
