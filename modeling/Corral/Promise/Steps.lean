import Corral.Promise.Model

/-!
# `BasePromise`: what a step does

* `Life`: the life of a coroutine, as far as its events tell;
* `Stage`: where a task is between its creation and its end, in every run (`stage_of_reach`);
* `Move`: everything that a step can do to a task in one of these stages (`move_of_step`).
-/

namespace Corral.BasePromise

open ActionMachine AwaiterStateChecker

variable {s t : State}

/-! ### The life of a coroutine -/

/-- The body is suspended or it is executed, the parent has been told the end, and it has been
continued. -/
inductive Life
  | asleep
  | awake
  | ended
  | completed
  deriving DecidableEq

/-- The life goes on. -/
def Life.next : Life → Event → Option Life
  | .asleep, .resumed => some .awake
  | .asleep, .askedEarly _ => some .asleep
  | .asleep, .cancelled => some .ended
  | .awake, .suspended => some .asleep
  | .awake, .stored _ => some .ended
  | .ended, .continuation => some .completed
  | _, _ => none

/-- Where the events lead to, from a body that is suspended. -/
def lives (log : List Event) : Option Life := log.foldlM Life.next .asleep

theorem lives_append {log : List Event} {life : Life} (h : lives log = some life)
    (evs : List Event) : lives (log ++ evs) = evs.foldlM Life.next life := by
  rw [lives, List.foldlM_append]
  simp only [lives] at h
  rw [h]
  rfl

/-! ### Stages -/

/-- How far a task has come. -/
structure Stands (s : State) (started parent launched : Bool) (queued : ℕ) (life : Life) :
    Prop where
  started : s.started = started
  parent : s.parent = parent
  launched : s.launched = launched
  queued : s.queued = queued
  life : lives s.log = some life

/-- Where a task is. -/
inductive Stage (s : State) : Prop
  | created : Stands s false false false 0 .asleep → s.status = .ready → s.checker = none →
      s.body = .active → Stage s
  | started : Stands s true true false 0 .asleep → s.status = .ready → s.checker = none →
      s.body = .active → s.onResume = .doResume → Stage s
  | scheduled : Stands s true true true 1 .asleep → s.status = .ready →
      (∀ c, s.checker = some c → c.state = .ready) → s.body = .active → Stage s
  | executing : Stands s true true true 0 .awake → s.status = .running → s.checker = none →
      s.body = .active → Stage s
  | awaiting {c : Checker} : Stands s true true true 0 .asleep → s.status = .suspended →
      s.checker = some c → s.body = .active →
      (c.state = .running ∧ s.onResume = .doResume ∨
        c.state = .cancelling ∧ s.onResume = .doResumeAfterCancel ∧ s.asked = true) → Stage s
  | returning : Stands s true true true 0 .ended → s.status = .running → s.checker = none →
      s.body = .returned → Stage s
  | finished : Stands s true false true 0 .completed →
      (∀ c, s.checker = some c → c.state = .cancelled) → s.body ≠ .returned →
      (s.status = .running → s.body = .over) → Stage s

theorem stage_init : Stage .init := .created ⟨rfl, rfl, rfl, rfl, rfl⟩ rfl rfl rfl

/-- An awaiter in progress is the one that the task is suspended on. -/
theorem Stage.of_inProgress {c : Checker} (hs : Stage s) (hc : s.checker = some c)
    (h : c.state = .running ∨ c.state = .cancelling) :
    Stands s true true true 0 .asleep ∧ s.status = .suspended ∧ s.body = .active ∧
      (c.state = .running ∧ s.onResume = .doResume ∨
        c.state = .cancelling ∧ s.onResume = .doResumeAfterCancel ∧ s.asked = true) := by
  cases hs with
  | created _ _ hno => exact absurd hc (by simp [hno])
  | started _ _ hno => exact absurd hc (by simp [hno])
  | scheduled _ _ hch => rw [hch c hc] at h; simp at h
  | executing _ _ hno => exact absurd hc (by simp [hno])
  | awaiting hst hsu hc' hb hon =>
    cases Option.some.inj (hc.symm.trans hc')
    exact ⟨hst, hsu, hb, hon⟩
  | returning _ _ hno => exact absurd hc (by simp [hno])
  | finished _ hch => rw [hch c hc] at h; simp at h

/-- The body that is executed has a parent to answer to. -/
theorem Stage.parent_of_running (hs : Stage s) (hst : s.status = .running) (hb : s.body ≠ .over) :
    Stands s true true true 0 (if s.body = .active then .awake else .ended) ∧
      s.checker = none := by
  cases hs with
  | created _ h => cases h.symm.trans hst
  | started _ h => cases h.symm.trans hst
  | scheduled _ h => cases h.symm.trans hst
  | executing h _ hno hb' => exact ⟨by rwa [if_pos hb'], hno⟩
  | awaiting _ h => cases h.symm.trans hst
  | returning h _ hno hb' => exact ⟨by rwa [if_neg (by simp [hb'])], hno⟩
  | finished _ _ _ h => exact absurd (h hst) hb

theorem Stage.returning_of_returned (hs : Stage s) (hb : s.body = .returned) :
    Stands s true true true 0 .ended ∧ s.status = .running ∧ s.checker = none := by
  cases hs with
  | created _ _ _ h => cases h.symm.trans hb
  | started _ _ _ h => cases h.symm.trans hb
  | scheduled _ _ _ h => cases h.symm.trans hb
  | executing _ _ _ h => cases h.symm.trans hb
  | awaiting _ _ _ h => cases h.symm.trans hb
  | returning hst hrun hno => exact ⟨hst, hrun, hno⟩
  | finished _ _ h => exact absurd hb h

/-- Whatever waits in the executor is the resumption of a body that is scheduled. -/
theorem Stage.scheduled_of_queued (hs : Stage s) (h : s.queued ≠ 0) :
    Stands s true true true 1 .asleep ∧ s.status = .ready ∧ s.body = .active ∧
      ∀ c, s.checker = some c → c.state = .ready := by
  cases hs with
  | created hst => exact absurd hst.queued h
  | started hst => exact absurd hst.queued h
  | scheduled hst hre hch hb => exact ⟨hst, hre, hb, hch⟩
  | executing hst => exact absurd hst.queued h
  | awaiting hst => exact absurd hst.queued h
  | returning hst => exact absurd hst.queued h
  | finished hst => exact absurd hst.queued h

/-- A task that is not suspended has no awaiter in progress, and one that is has one. -/
theorem Stage.awaiter_of_suspended (hs : Stage s) (hst : s.status = .suspended)
    (hl : s.live = true) : ∃ c, s.checker = some c ∧ (c.state = .running ∨
      c.state = .cancelling ∧ s.asked = true) := by
  cases hs with
  | created _ h => cases h.symm.trans hst
  | started _ h => cases h.symm.trans hst
  | scheduled _ h => cases h.symm.trans hst
  | executing _ h => cases h.symm.trans hst
  | awaiting _ _ hc _ hon =>
    refine ⟨_, hc, ?_⟩
    rcases hon with ⟨h, -⟩ | ⟨h, -, ha⟩
    · exact .inl h
    · exact .inr ⟨h, ha⟩
  | returning _ h => cases h.symm.trans hst
  | finished h => simp [State.live, h.parent, h.started] at hl

/-! ### Moves -/

/-- The body suspends, with an awaiter whose checker is `c`. -/
def State.suspendOn (s : State) (c : Checker) : State :=
  State.record { s with
    status := .suspended
    cancelRequested := false
    checker := some c
    awaits := s.awaits + 1 } .suspended

/-- The task ends by cancellation. -/
def State.endCancelled (s : State) : State :=
  ({ s with parent := false }.record .cancelled).record .continuation

/-- Everything that a step can do. -/
inductive Move (s : State) : Action → State → Prop
  | start : s.started = false →
      Move s .start { s with started := true, parent := true, onResume := .doResume }
  | launch : s.started = true → s.launched = false → Move s .launch { s with launched := true }.doResume
  | cancel : s.live = true → s.status ≠ .suspended →
      Move s .cancel { s with asked := true, cancelRequested := true }
  | cancelAwaiter {c : Checker} : s.live = true → s.status = .suspended → s.checker = some c →
      c.state = .running → Move s .cancel { s with
        asked := true
        onResume := .doResumeAfterCancel
        checker := some (c.set .cancelling)
        stack := .awaitCancel s.awaits :: s.stack }
  | run : s.queued ≠ 0 → Move s .run
      (State.record { s with queued := s.queued - 1, status := .running, checker := none } .resumed)
  | readyNow {ans : Answers} : s.status = .running → s.body = .active →
      s.cancelRequested = false → ans.ready = true →
      Move s (.coAwait ans) { s with checker := none, awaits := s.awaits + 1 }
  | suspend {ans : Answers} : s.status = .running → s.body = .active →
      s.cancelRequested = false → ans.ready = false →
      Move s (.coAwait ans) { s.suspendOn ⟨.running, true⟩ with
        onResume := .doResume
        stack := .awaitSuspend (s.awaits + 1) false :: s.stack }
  | earlyCancelled {ans : Answers} : s.status = .running → s.body = .active →
      s.cancelRequested = true → ans.earlyCancel = true →
      Move s (.coAwait ans)
        ((s.suspendOn ⟨.cancelled, false⟩).record (.askedEarly true)).endCancelled
  | readyCancelled {ans : Answers} : s.status = .running → s.body = .active →
      s.cancelRequested = true → ans.earlyCancel = false → ans.ready = true →
      ans.mustResume = false →
      Move s (.coAwait ans) { (s.suspendOn ⟨.cancelled, false⟩).record (.askedEarly false) with
        onResume := .doResumeAfterCancel }.endCancelled
  | readyResumed {ans : Answers} : s.status = .running → s.body = .active →
      s.cancelRequested = true → ans.earlyCancel = false → ans.ready = true →
      ans.mustResume = true →
      Move s (.coAwait ans) { (s.suspendOn ⟨.ready, false⟩).record (.askedEarly false) with
        cancelRequested := true }.doResume
  | suspendPending {ans : Answers} : s.status = .running → s.body = .active →
      s.cancelRequested = true → ans.earlyCancel = false → ans.ready = false →
      Move s (.coAwait ans) { (s.suspendOn ⟨.cancelling, true⟩).record (.askedEarly false) with
        onResume := .doResumeAfterCancel
        stack := .awaitSuspend (s.awaits + 1) true :: s.stack }
  | suspendReturns {k : ℕ} {req : Bool} {below : List Frame} :
      s.stack = .awaitSuspend k req :: below → Move s .suspendReturns { s with stack := below }
  | suspendThrows {c : Checker} {req : Bool} {below : List Frame} :
      s.stack = .awaitSuspend s.awaits req :: below → s.checker = some c →
      (c.state = .running ∨ c.state = .cancelling) →
      Move s .suspendThrows (State.record { s with
        stack := below, checker := none, status := .running, cancelRequested := req } .resumed)
  | resume {c : Checker} {mustResume : Bool} : s.checker = some c → c.state = .running →
      Move s (.resume mustResume) { s with checker := some (c.set .ready) }.doResume
  | resumeAnyway {c : Checker} : s.checker = some c → c.state = .cancelling →
      Move s (.resume true)
        { s with checker := some (c.set .ready), cancelRequested := true }.doResume
  | resumeCancelled {c : Checker} : s.checker = some c → c.state = .cancelling →
      Move s (.resume false) { s with checker := some (c.set .cancelled) }.endCancelled
  | cancelRefused {k : ℕ} {below : List Frame} : s.stack = .awaitCancel k :: below →
      Move s (.cancelReturns false) { s with stack := below }
  | cancelConfirmed {c : Checker} {below : List Frame} : s.stack = .awaitCancel s.awaits :: below →
      s.checker = some c → c.state = .cancelling →
      Move s (.cancelReturns true)
        { s with stack := below, checker := some (c.set .cancelled) }.endCancelled
  | store {exception : Bool} : s.status = .running → s.body = .active →
      Move s (.store exception) ({ s with body := .returned }.record (.stored exception))
  | finalSuspend : s.body = .returned →
      Move s .finalSuspend ({ s with body := .over, parent := false }.record .continuation)

/-- A co_await of a task that is executed always finds a way on. -/
theorem coAwait_move (hst : s.status = .running) (hb : s.body = .active) (hp : s.parent = true)
    (ans : Answers) : ∃ t, s.coAwait ans = .ok t ∧ Move s (.coAwait ans) t := by
  obtain ⟨started, launched, parent, status, req, onResume, checker, awaits, queued, stack, body,
    asked, log⟩ := s
  obtain rfl : parent = true := hp
  obtain ⟨early, ready, must⟩ := ans
  cases req with
  | false =>
    cases ready with
    | true => exact ⟨_, rfl, .readyNow hst hb rfl rfl⟩
    | false => exact ⟨_, rfl, .suspend hst hb rfl rfl⟩
  | true =>
    cases early with
    | true => exact ⟨_, rfl, .earlyCancelled hst hb rfl rfl⟩
    | false =>
      cases ready with
      | false => exact ⟨_, rfl, .suspendPending hst hb rfl rfl rfl⟩
      | true =>
        cases must with
        | true => exact ⟨_, rfl, .readyResumed hst hb rfl rfl rfl rfl⟩
        | false => exact ⟨_, rfl, .readyCancelled hst hb rfl rfl rfl rfl⟩

/-- What a step does: a move, or nothing because whoever acts does not follow the protocol.  Only
the second cancellation of a task may fail otherwise. -/
def Moves (s : State) (a : Action) : Prop :=
  (∃ t, step s a = .ok t ∧ Move s a t) ∨ step s a = .error .protocol ∨
    step s a = .error .assertion ∧ a = .cancel ∧ s.asked = true

theorem Stage.moves_launch (hs : Stage s) : Moves s .launch := by
  by_cases hl : s.started = true ∧ s.launched = false
  · cases hs with
    | created h => exact absurd hl.1 (by simp [h.started])
    | started _ _ _ _ hon =>
      refine .inl ⟨_, ?_, .launch hl.1 hl.2⟩
      simp only [step, if_pos hl, State.trampoline, hon]
    | scheduled h => exact absurd hl.2 (by simp [h.launched])
    | executing h => exact absurd hl.2 (by simp [h.launched])
    | awaiting h => exact absurd hl.2 (by simp [h.launched])
    | returning h => exact absurd hl.2 (by simp [h.launched])
    | finished h => exact absurd hl.2 (by simp [h.launched])
  · exact .inr (.inl (if_neg hl))

theorem Stage.moves_cancel (hs : Stage s) : Moves s .cancel := by
  by_cases hl : s.live = true
  · by_cases hsu : s.status = .suspended
    · obtain ⟨c, hc, hrun | ⟨hcan, ha⟩⟩ := hs.awaiter_of_suspended hsu hl
      · refine .inl ⟨_, ?_, .cancelAwaiter hl hsu hc hrun⟩
        simp [step, hl, State.cancel, hsu, State.check, hc, Checker.aboutToCancel, hrun,
          Except.bind]
      · refine .inr (.inr ⟨?_, rfl, ha⟩)
        simp [step, hl, State.cancel, hsu, State.check, hc, Checker.aboutToCancel, hcan,
          Except.bind]
    · refine .inl ⟨_, ?_, .cancel hl hsu⟩
      simp [step, hl, State.cancel, hsu]
  · exact .inr (.inl (if_neg hl))

/-- The executor resumes the body. -/
theorem Stage.run_move (hs : Stage s) (hq : s.queued ≠ 0) :
    ∃ t, step s .run = .ok t ∧ Move s .run t := by
  obtain ⟨-, -, -, hch⟩ := hs.scheduled_of_queued hq
  refine ⟨_, ?_, .run hq⟩
  cases hc : s.checker with
  | none => simp only [step, if_neg hq, State.resumeBody, hc]
  | some c =>
    simp [step, hq, State.resumeBody, hc, State.check, State.record, Checker.aboutToResume,
      hch c hc, Except.map]

theorem Stage.moves_run (hs : Stage s) : Moves s .run := by
  by_cases hq : s.queued = 0
  · exact .inr (.inl (if_pos hq))
  · exact .inl (hs.run_move hq)

theorem Stage.moves_coAwait (hs : Stage s) (ans : Answers) : Moves s (.coAwait ans) := by
  by_cases h : s.status = .running ∧ s.body = .active
  · obtain ⟨hst, -⟩ := hs.parent_of_running h.1 (by simp [h.2])
    obtain ⟨t, ht, hm⟩ := coAwait_move h.1 h.2 hst.parent ans
    exact .inl ⟨t, (if_pos h).trans ht, hm⟩
  · exact .inr (.inl (if_neg h))

theorem Stage.moves_store (hs : Stage s) (exc : Bool) : Moves s (.store exc) := by
  by_cases h : s.status = .running ∧ s.body = .active
  · obtain ⟨hst, -⟩ := hs.parent_of_running h.1 (by simp [h.2])
    exact .inl ⟨_, (if_pos h).trans (if_pos hst.parent), .store h.1 h.2⟩
  · exact .inr (.inl (if_neg h))

theorem Stage.moves_finalSuspend (hs : Stage s) : Moves s .finalSuspend := by
  by_cases hb : s.body = .returned
  · obtain ⟨hst, -⟩ := hs.returning_of_returned hb
    exact .inl ⟨_, (if_pos hb).trans (if_pos hst.parent), .finalSuspend hb⟩
  · exact .inr (.inl (if_neg hb))

theorem moves_suspendReturns : Moves s .suspendReturns := by
  cases h : s.stack with
  | nil => exact .inr (.inl (by simp only [step, h]))
  | cons f below =>
    cases f with
    | awaitSuspend k req => exact .inl ⟨_, by simp only [step, h], .suspendReturns h⟩
    | awaitCancel k => exact .inr (.inl (by simp only [step, h]))

theorem moves_suspendThrows : Moves s .suspendThrows := by
  cases h : s.stack with
  | nil => exact .inr (.inl (by simp only [step, h]))
  | cons f below =>
    cases f with
    | awaitCancel k => exact .inr (.inl (by simp only [step, h]))
    | awaitSuspend k req =>
      by_cases hk : k = s.awaits
      · subst hk
        have hstep : step s .suspendThrows = { s with stack := below }.suspendThrows req := by
          simp only [step, h, if_true]
        cases hc : s.checker with
        | none =>
          refine .inr (.inl ?_)
          simp [hstep, State.suspendThrows, State.check, hc, Except.map]
        | some c =>
          by_cases hp : c.state = .running ∨ c.state = .cancelling
          · refine .inl ⟨_, ?_, .suspendThrows h hc hp⟩
            rcases hp with hp | hp <;>
              simp [hstep, State.suspendThrows, State.check, hc, Except.map, Checker.suspendThrew,
                hp]
          · refine .inr (.inl ?_)
            simp [hstep, State.suspendThrows, State.check, hc, Except.map, suspendThrew_eq_none hp]
      · exact .inr (.inl (by simp only [step, h, if_neg hk]))

/-- The awaiter resumes the handle of the task. -/
theorem Stage.resume_move {c : Checker} (hs : Stage s) (hc : s.checker = some c)
    (hp : c.state = .running ∨ c.state = .cancelling) (mustResume : Bool) :
    ∃ t, step s (.resume mustResume) = .ok t ∧ Move s (.resume mustResume) t := by
  obtain ⟨hst, hsu, -, ⟨hrun, hon⟩ | ⟨hcan, hon, -⟩⟩ := hs.of_inProgress hc hp
  · refine ⟨_, ?_, .resume hc hrun⟩
    simp [step, State.check, hc, Checker.resumed, hrun, Except.bind, State.trampoline, hon]
  · cases mustResume with
    | true =>
      refine ⟨_, ?_, .resumeAnyway hc hcan⟩
      simp [step, State.check, hc, Checker.resumed, hcan, Except.bind, State.trampoline, hon,
        State.doResumeAfterCancel, hsu, Checker.mustResumeReturned, Checker.set]
    | false =>
      refine ⟨_, ?_, .resumeCancelled hc hcan⟩
      simp [step, State.check, hc, Checker.resumed, hcan, Except.bind, State.trampoline, hon,
        State.doResumeAfterCancel, hsu, Checker.mustResumeReturned, Checker.set,
        State.propagateCancel, hst.parent, State.endCancelled]

theorem Stage.moves_resume (hs : Stage s) (mustResume : Bool) : Moves s (.resume mustResume) := by
  cases hc : s.checker with
  | none => exact .inr (.inl (by simp [step, State.check, hc, Except.bind]))
  | some c =>
    by_cases hp : c.state = .running ∨ c.state = .cancelling
    · exact .inl (hs.resume_move hc hp mustResume)
    · refine .inr (.inl ?_)
      simp [step, State.check, hc, resumed_eq_none hp, Except.bind]

theorem Stage.moves_cancelReturns (hs : Stage s) (done : Bool) : Moves s (.cancelReturns done) := by
  cases h : s.stack with
  | nil => exact .inr (.inl (by simp only [step, h]))
  | cons f below =>
    cases f with
    | awaitSuspend k req => exact .inr (.inl (by simp only [step, h]))
    | awaitCancel k =>
      cases done with
      | false => exact .inl ⟨_, by simp [step, h], .cancelRefused h⟩
      | true =>
        by_cases hk : k = s.awaits
        · subst hk
          cases hc : s.checker with
          | none => exact .inr (.inl (by simp [step, h, State.check, hc, Except.bind]))
          | some c =>
            by_cases hcan : c.state = .cancelling
            · obtain ⟨hst, -⟩ := hs.of_inProgress hc (.inr hcan)
              refine .inl ⟨_, ?_, .cancelConfirmed h hc hcan⟩
              simp [step, h, State.check, hc, Checker.cancelReturned, hcan, Except.bind,
                State.propagateCancel, hst.parent, State.endCancelled]
            · refine .inr (.inl ?_)
              simp [step, h, State.check, hc, Checker.cancelReturned, hcan, Except.bind]
        · exact .inr (.inl (by simp [step, h, hk]))

theorem Stage.moves (hs : Stage s) (a : Action) : Moves s a := by
  cases a with
  | start =>
    by_cases h : s.started = true
    · exact .inr (.inl (if_pos h))
    · exact .inl ⟨_, if_neg h, .start (by simpa using h)⟩
  | launch => exact hs.moves_launch
  | cancel => exact hs.moves_cancel
  | run => exact hs.moves_run
  | coAwait ans => exact hs.moves_coAwait ans
  | suspendReturns => exact moves_suspendReturns
  | suspendThrows => exact moves_suspendThrows
  | resume must => exact hs.moves_resume must
  | cancelReturns done => exact hs.moves_cancelReturns done
  | store exc => exact hs.moves_store exc
  | finalSuspend => exact hs.moves_finalSuspend

/-! ### What holds in every run -/

/-- A task that a run has led to: where it is, and that no cancellation is pending that nobody has
asked for. -/
structure Reached (s : State) : Prop where
  stage : Stage s
  requested : s.cancelRequested = true → s.asked = true
  entered : ∀ k, .awaitSuspend k true ∈ s.stack → s.asked = true

theorem reached_init : Reached .init where
  stage := stage_init
  requested := by rintro ⟨⟩
  entered := by rintro k ⟨⟩

theorem move_of_step {a : Action} (hs : Stage s) (h : step s a = .ok t) : Move s a t := by
  rcases hs.moves a with ⟨u, hu, hm⟩ | hp | ⟨hp, -⟩
  · cases hu.symm.trans h
    exact hm
  · cases hp.symm.trans h
  · cases hp.symm.trans h

/-- A task that is not started yet has only been created. -/
theorem Stage.created_of_not_started (hs : Stage s) (h : s.started = false) :
    Stands s false false false 0 .asleep ∧ s.status = .ready ∧ s.checker = none ∧
      s.body = .active := by
  cases hs with
  | created h₁ h₂ h₃ h₄ => exact ⟨h₁, h₂, h₃, h₄⟩
  | started h' => cases h'.started.symm.trans h
  | scheduled h' => cases h'.started.symm.trans h
  | executing h' => cases h'.started.symm.trans h
  | awaiting h' => cases h'.started.symm.trans h
  | returning h' => cases h'.started.symm.trans h
  | finished h' => cases h'.started.symm.trans h

theorem Stage.started_of_not_launched (hs : Stage s) (h : s.started = true)
    (hl : s.launched = false) : Stands s true true false 0 .asleep ∧ s.status = .ready ∧
      s.checker = none ∧ s.body = .active := by
  cases hs with
  | created h' => cases h'.started.symm.trans h
  | started h₁ h₂ h₃ h₄ => exact ⟨h₁, h₂, h₃, h₄⟩
  | scheduled h' => cases h'.launched.symm.trans hl
  | executing h' => cases h'.launched.symm.trans hl
  | awaiting h' => cases h'.launched.symm.trans hl
  | returning h' => cases h'.launched.symm.trans hl
  | finished h' => cases h'.launched.symm.trans hl

/-- What is not about the stage of a task does not change it. -/
theorem Stage.of_eq {req asked : Bool} {stack : List Frame} (hs : Stage s)
    (ha : s.asked = true → asked = true) :
    Stage { s with cancelRequested := req, stack := stack, asked := asked } := by
  cases hs with
  | created h h₁ h₂ h₃ => exact .created ⟨h.1, h.2, h.3, h.4, h.5⟩ h₁ h₂ h₃
  | started h h₁ h₂ h₃ h₄ => exact .started ⟨h.1, h.2, h.3, h.4, h.5⟩ h₁ h₂ h₃ h₄
  | scheduled h h₁ h₂ h₃ => exact .scheduled ⟨h.1, h.2, h.3, h.4, h.5⟩ h₁ h₂ h₃
  | executing h h₁ h₂ h₃ => exact .executing ⟨h.1, h.2, h.3, h.4, h.5⟩ h₁ h₂ h₃
  | awaiting h h₁ h₂ h₃ hon =>
    refine .awaiting ⟨h.1, h.2, h.3, h.4, h.5⟩ h₁ h₂ h₃ ?_
    rcases hon with hon | ⟨hc, hon, ha'⟩
    · exact .inl hon
    · exact .inr ⟨hc, hon, ha ha'⟩
  | returning h h₁ h₂ h₃ => exact .returning ⟨h.1, h.2, h.3, h.4, h.5⟩ h₁ h₂ h₃
  | finished h h₁ h₂ h₃ => exact .finished ⟨h.1, h.2, h.3, h.4, h.5⟩ h₁ h₂ h₃

theorem Stands.record {st pa la : Bool} {n : ℕ} {life life' : Life} {ev : Event}
    (h : Stands s st pa la n life) (hn : life.next ev = some life') :
    Stands (s.record ev) st pa la n life' := by
  refine ⟨h.1, h.2, h.3, h.4, ?_⟩
  rw [State.record, lives_append h.life, List.foldlM_cons, hn]
  rfl

theorem Stands.suspendOn (h : Stands s true true true 0 .awake) (c : Checker) :
    Stands (s.suspendOn c) true true true 0 .asleep :=
  Stands.record ⟨h.1, h.2, h.3, h.4, h.5⟩ rfl

/-- A task that ends by cancellation is finished. -/
theorem Stage.endCancelled {c : Checker} (hst : Stands s true true true 0 .asleep)
    (hsu : s.status = .suspended) (hc : s.checker = some c) (hcan : c.state = .cancelled)
    (hb : s.body = .active) : Stage s.endCancelled := by
  have hend : Stands s.endCancelled true false true 0 .completed := by
    have hcut : Stands { s with parent := false } true false true 0 .asleep :=
      ⟨hst.1, rfl, hst.3, hst.4, hst.5⟩
    have htold : Stands ({ s with parent := false }.record .cancelled) true false true 0 .ended :=
      hcut.record rfl
    exact htold.record rfl
  refine .finished hend ?_ (by simp [State.endCancelled, State.record, hb]) ?_
  · intro c' hc'
    cases hc.symm.trans hc'
    exact hcan
  · intro hrun
    cases hsu.symm.trans hrun

/-- A task whose awaiter is done is scheduled. -/
theorem Stage.doResume {c : Checker} (hst : Stands s true true true 0 .asleep)
    (hc : s.checker = some c) (hre : c.state = .ready) (hb : s.body = .active) :
    Stage s.doResume := by
  refine .scheduled ⟨hst.1, hst.2, hst.3, ?_, hst.5⟩ rfl ?_ hb
  · show s.queued + 1 = 1
    rw [hst.queued]
  · intro c' hc'
    cases hc.symm.trans hc'
    exact hre

theorem Move.of_coAwait {ans : Answers} (h : Move s (.coAwait ans) t) :
    s.status = .running ∧ s.body = .active := by
  cases h <;> exact ⟨‹_›, ‹_›⟩

/-- The stages of a co_await. -/
theorem Stage.coAwait {ans : Answers} (hs : Reached s) (h : Move s (.coAwait ans) t) :
    Stage t := by
  obtain ⟨hrun, hb⟩ := h.of_coAwait
  obtain ⟨hst, -⟩ := hs.stage.parent_of_running hrun (by simp [hb])
  rw [if_pos hb] at hst
  have hasked (c : Checker) :
      Stands ((s.suspendOn c).record (.askedEarly false)) true true true 0 .asleep :=
    (hst.suspendOn c).record rfl
  cases h with
  | readyNow => exact .executing ⟨hst.1, hst.2, hst.3, hst.4, hst.5⟩ hrun rfl hb
  | suspend =>
    have hon := hst.suspendOn ⟨.running, true⟩
    exact .awaiting ⟨hon.1, hon.2, hon.3, hon.4, hon.5⟩ rfl rfl hb (.inl ⟨rfl, rfl⟩)
  | earlyCancelled => exact .endCancelled ((hst.suspendOn _).record rfl) rfl rfl rfl hb
  | readyCancelled =>
    have hon := hasked ⟨.cancelled, false⟩
    exact .endCancelled ⟨hon.1, hon.2, hon.3, hon.4, hon.5⟩ rfl rfl rfl hb
  | readyResumed =>
    have hon := hasked ⟨.ready, false⟩
    exact .doResume ⟨hon.1, hon.2, hon.3, hon.4, hon.5⟩ rfl rfl hb
  | suspendPending _ _ hreq =>
    have hon := hasked ⟨.cancelling, true⟩
    exact .awaiting ⟨hon.1, hon.2, hon.3, hon.4, hon.5⟩ rfl rfl hb
      (.inr ⟨rfl, rfl, hs.requested hreq⟩)

theorem Stage.move {a : Action} (hs : Reached s) (h : Move s a t) : Stage t := by
  cases h with
  | start hst =>
    obtain ⟨hst, hs₁, hs₂, hs₃⟩ := hs.stage.created_of_not_started hst
    exact .started ⟨rfl, rfl, hst.launched, hst.queued, hst.life⟩ hs₁ hs₂ hs₃ rfl
  | launch hst hl =>
    obtain ⟨hst, hs₁, hs₂, hs₃⟩ := hs.stage.started_of_not_launched hst hl
    refine .scheduled ⟨hst.started, hst.parent, rfl, ?_, hst.life⟩ rfl ?_ hs₃
    · show s.queued + 1 = 1
      rw [hst.queued]
    · intro c hc
      cases hs₂.symm.trans hc
  | cancel => exact hs.stage.of_eq fun _ => rfl
  | cancelAwaiter _ hsu hc hrun =>
    obtain ⟨hst, -, hb, -⟩ := hs.stage.of_inProgress hc (.inl hrun)
    exact .awaiting ⟨hst.1, hst.2, hst.3, hst.4, hst.5⟩ hsu rfl hb (.inr ⟨rfl, rfl, rfl⟩)
  | run hq =>
    obtain ⟨hst, -, hb, -⟩ := hs.stage.scheduled_of_queued hq
    refine .executing ⟨hst.1, hst.2, hst.3, ?_, lives_append hst.life _⟩ rfl rfl hb
    show s.queued - 1 = 0
    rw [hst.queued]
  | readyNow h₁ h₂ h₃ h₄ => exact .coAwait hs (.readyNow h₁ h₂ h₃ h₄)
  | suspend h₁ h₂ h₃ h₄ => exact .coAwait hs (.suspend h₁ h₂ h₃ h₄)
  | earlyCancelled h₁ h₂ h₃ h₄ => exact .coAwait hs (.earlyCancelled h₁ h₂ h₃ h₄)
  | readyCancelled h₁ h₂ h₃ h₄ h₅ h₆ => exact .coAwait hs (.readyCancelled h₁ h₂ h₃ h₄ h₅ h₆)
  | readyResumed h₁ h₂ h₃ h₄ h₅ h₆ => exact .coAwait hs (.readyResumed h₁ h₂ h₃ h₄ h₅ h₆)
  | suspendPending h₁ h₂ h₃ h₄ h₅ => exact .coAwait hs (.suspendPending h₁ h₂ h₃ h₄ h₅)
  | suspendReturns => exact hs.stage.of_eq id
  | suspendThrows _ hc hp =>
    obtain ⟨hst, -, hb, -⟩ := hs.stage.of_inProgress hc hp
    exact .executing (Stands.record ⟨hst.1, hst.2, hst.3, hst.4, hst.5⟩ rfl) rfl rfl hb
  | resume hc hrun =>
    obtain ⟨hst, -, hb, -⟩ := hs.stage.of_inProgress hc (.inl hrun)
    exact .doResume ⟨hst.1, hst.2, hst.3, hst.4, hst.5⟩ rfl rfl hb
  | resumeAnyway hc hcan =>
    obtain ⟨hst, -, hb, -⟩ := hs.stage.of_inProgress hc (.inr hcan)
    exact .doResume ⟨hst.1, hst.2, hst.3, hst.4, hst.5⟩ rfl rfl hb
  | resumeCancelled hc hcan =>
    obtain ⟨hst, hsu, hb, -⟩ := hs.stage.of_inProgress hc (.inr hcan)
    exact .endCancelled ⟨hst.1, hst.2, hst.3, hst.4, hst.5⟩ hsu rfl rfl hb
  | cancelRefused => exact hs.stage.of_eq id
  | cancelConfirmed _ hc hcan =>
    obtain ⟨hst, hsu, hb, -⟩ := hs.stage.of_inProgress hc (.inr hcan)
    exact .endCancelled ⟨hst.1, hst.2, hst.3, hst.4, hst.5⟩ hsu rfl rfl hb
  | store hrun hb =>
    obtain ⟨hst, hno⟩ := hs.stage.parent_of_running hrun (by simp [hb])
    rw [if_pos hb] at hst
    exact .returning (Stands.record ⟨hst.1, hst.2, hst.3, hst.4, hst.5⟩ rfl) hrun hno rfl
  | finalSuspend hb =>
    obtain ⟨hst, -, hno⟩ := hs.stage.returning_of_returned hb
    have hcut : Stands { s with body := .over, parent := false } true false true 0 .ended :=
      ⟨hst.1, rfl, hst.3, hst.4, hst.5⟩
    refine .finished (hcut.record rfl) ?_ ?_ ?_
    · intro c hc
      cases hno.symm.trans hc
    · rintro ⟨⟩
    · exact fun _ => rfl

/-- No cancellation is pending that nobody has asked for. -/
theorem Reached.move_requested {a : Action} (hs : Reached s) (h : Move s a t) :
    t.cancelRequested = true → t.asked = true := by
  cases h with
  | cancel => exact fun _ => rfl
  | cancelAwaiter => exact fun _ => rfl
  | suspend => rintro ⟨⟩
  | earlyCancelled => rintro ⟨⟩
  | readyCancelled => rintro ⟨⟩
  | suspendPending => rintro ⟨⟩
  | readyResumed _ _ hreq => exact fun _ => hs.requested hreq
  | @suspendThrows _ req _ hstack =>
    intro (hreq : req = true)
    subst hreq
    exact hs.entered _ (hstack ▸ List.mem_cons_self)
  | resumeAnyway hc hcan =>
    obtain ⟨-, -, -, ⟨hrun, -⟩ | ⟨-, -, ha⟩⟩ := hs.stage.of_inProgress hc (.inr hcan)
    · cases hrun.symm.trans hcan
    · exact fun _ => ha
  | _ => exact hs.requested

theorem Reached.move_entered {a : Action} (hs : Reached s) (h : Move s a t) (k : ℕ)
    (hk : .awaitSuspend k true ∈ t.stack) : t.asked = true := by
  cases h with
  | cancel => rfl
  | cancelAwaiter => rfl
  | suspend =>
    rcases List.mem_cons.1 hk with hk | hk
    · cases hk
    · exact hs.entered k hk
  | suspendPending _ _ hreq => exact hs.requested hreq
  | suspendReturns hstack => exact hs.entered k (hstack ▸ List.mem_cons_of_mem _ hk)
  | suspendThrows hstack => exact hs.entered k (hstack ▸ List.mem_cons_of_mem _ hk)
  | cancelRefused hstack => exact hs.entered k (hstack ▸ List.mem_cons_of_mem _ hk)
  | cancelConfirmed hstack => exact hs.entered k (hstack ▸ List.mem_cons_of_mem _ hk)
  | _ => exact hs.entered k hk

theorem Reached.step {a : Action} (hs : Reached s) (h : step s a = .ok t) : Reached t := by
  have hm := move_of_step hs.stage h
  exact ⟨.move hs hm, hs.move_requested hm, hs.move_entered hm⟩

/-- Whatever the steps are, they lead from one stage to another. -/
theorem reached_of_reach {ok : State → Action → Prop} (h : Reach BasePromise.step ok .init s) :
    Reached s :=
  h.invariant reached_init fun _ _ _ hs _ hstep => hs.step hstep

end Corral.BasePromise
