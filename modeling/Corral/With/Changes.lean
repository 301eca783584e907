import Corral.With.Core

/-!
# `with()`: what a step does

`Change` lists everything that a step can do, by what it is about: `Making`, `Answering`, `Ending`,
`Preparing` and `Performing`; `change_of_step` says that there is nothing else.
-/

namespace Corral.With

open ActionMachine AwaiterStateChecker

variable {Err : Type*} {s t : State Err}

/-! ### What a step does -/

/-- The stage `w` says whether it is to be resumed. -/
def State.refuse (s : State Err) (w : Which) (no : Bool) : State Err :=
  s.set w { s.get w with mustNotResume := no }

/-- The stage `w` has confirmed its cancellation in `cancelStage()`. -/
def State.confirm (s : State Err) (w : Which) : State Err := (s.refuse w true).finish w

/-- `await_suspend()` of the stage `w` has thrown. -/
def State.fail (s : State Err) (w : Which) : State Err :=
  s.set w { s.get w with life := .threw }

/-- `then()` has returned, and the second stage exists. -/
def State.made (s : State Err) : State Err :=
  { s with stage := .secondStage, second := { s.second with life := .idle, built := true } }

/-- A stage answers in `cancelStage()`. -/
def answer (early done : Bool) : Action Err :=
  if early then .earlyCancelReturns done else .cancelReturns done

/-- The first stage is made or signals readiness, and `then()` answers. -/
inductive Making (s : State Err) : Action Err → State Err → Prop
  | constructs {below : List (Frame Err)} : s.stack = .construct :: below → Making s .firstReturns
      { s with stack := below, first := { s.first with life := .idle, built := true } }
  | ignored : s.maySignal = true → s.first.done = false → s.first.cancelling = true →
      Making s .started { s with signalled := true, second := { s.second with done := true } }
  | signals : s.maySignal = true → s.first.done = false → s.first.cancelling = false →
      Making s .started ({ s with signalled := true, stage := .none }.enter
        (.thenFn s.stage.isFirst))
  | makes {below : List (Frame Err)} : s.stack = .thenFn false :: below → s.cancelling = false →
      Making s .thenReturns ({ s with stack := below }.made)
  | makesBegins {below : List (Frame Err)} {u : State Err} {ret : Bool} :
      s.stack = .thenFn true :: below → s.cancelling = false →
      Begins ({ s with stack := below }.made) .second false u ret → Making s .thenReturns u
  | makesCancels {executor : Bool} {below : List (Frame Err)} :
      s.stack = .thenFn executor :: below → s.cancelling = true → Making s .thenReturns
        (({ s with stack := below }.made.set .second { s.made.second with
          cancelling := true
          asked := s.second.started }).enter
            (.cancelStage .second (!s.second.started) (.markStarted executor)))
  | throwsWaits {executor : Bool} {below : List (Frame Err)} {err : Err} :
      s.stack = .thenFn executor :: below → s.first.cancelling = true → Making s (.thenThrows err)
        { s with stack := below, stage := .exception err, thrown := some err }
  | throwsLast {executor : Bool} {below : List (Frame Err)} {err : Err} :
      s.stack = .thenFn executor :: below → s.first.cancelling = false → s.first.done = true →
      Making s (.thenThrows err)
        ({ s with stack := below, stage := .exception err, thrown := some err }.resumeParent)
  | throwsAsks {executor : Bool} {below : List (Frame Err)} {err : Err} :
      s.stack = .thenFn executor :: below → s.first.cancelling = false → s.first.done = false →
      s.first.built = true → Making s (.thenThrows err)
        (({ s with stack := below, stage := .exception err, thrown := some err }.set .first
          { s.first with cancelling := true, asked := s.first.started }).enter
            (.cancelStage .first (!s.first.started) .thenThrew))

/-- A stage that has been asked to cancel itself answers. -/
inductive Answering (s : State Err) : Action Err → State Err → Prop
  | beginReadies {w : Which} {both ret : Bool} {below : List (Frame Err)} {u v : State Err} :
      s.stack = .beginEarlyCancel w both :: below → Readies { s with stack := below } w both u ret →
      Continues (State.next both) u ret v → Answering s (.earlyCancelReturns false) v
  | beginConfirms {w : Which} {both ret : Bool} {below : List (Frame Err)} {u v : State Err} :
      s.stack = .beginEarlyCancel w both :: below → s.isIn w .idle = true →
      Ends ({ s with stack := below }.refuse w true) w both u ret →
      Continues (State.next both) u ret v → Answering s (.earlyCancelReturns true) v
  | refusesDone {w : Which} {early both : Bool} {below : List (Frame Err)} {v : State Err} :
      s.stack = .cancelStage w early (.onStageDone both) :: below →
      Continues (State.next both) { s with stack := below } true v →
      Answering s (answer early false) v
  | refusesDoCancel {w : Which} {early : Bool} {caller : Caller} {below : List (Frame Err)} :
      s.stack = .cancelStage w early caller :: below → ∀ e, caller = .doCancelSecond e ∨
        (∃ after, caller = .doCancelFirst e after) →
      Answering s (answer early false) ({ s with stack := below }.cancelReturned e false)
  | refusesThrew {w : Which} {early : Bool} {below : List (Frame Err)} :
      s.stack = .cancelStage w early .thenThrew :: below →
      Answering s (answer early false) { s with stack := below }
  | refusesStarted {w : Which} {early executor : Bool} {below : List (Frame Err)} {v : State Err} :
      s.stack = .cancelStage w early (.markStarted executor) :: below →
      Continues (State.next executor) { s with stack := below } true v →
      Answering s (answer early false) v
  | confirmsDone {w : Which} {early both : Bool} {below : List (Frame Err)} {v : State Err} :
      s.stack = .cancelStage w early (.onStageDone both) :: below →
      s.isIn w (if early then .idle else .running) = true →
      Continues (State.next both) (({ s with stack := below }.confirm w).resumeParent) true v →
      Answering s (answer early true) v
  | confirmsSecond {early e : Bool} {below : List (Frame Err)} {v : State Err} :
      s.stack = .cancelStage .second early (.doCancelSecond e) :: below →
      s.isIn .second (if early then .idle else .running) = true →
      CancelsFirst ({ s with stack := below }.confirm .second) e true v →
      Answering s (answer early true) v
  | confirmsFirst {early e after : Bool} {below : List (Frame Err)} :
      s.stack = .cancelStage .first early (.doCancelFirst e after) :: below →
      s.isIn .first (if early then .idle else .running) = true →
      Answering s (answer early true) (({ s with stack := below }.confirm .first).cancelReturned e
        (after || !s.second.isRunning))
  | confirmsThrew {early : Bool} {below : List (Frame Err)} :
      s.stack = .cancelStage .first early .thenThrew :: below →
      s.isIn .first (if early then .idle else .running) = true →
      Answering s (answer early true) (({ s with stack := below }.confirm .first).resumeParent)
  | confirmsStarted {early executor ret : Bool} {below : List (Frame Err)} {v : State Err} :
      s.stack = .cancelStage .second early (.markStarted executor) :: below →
      s.isIn .second (if early then .idle else .running) = true →
      Ends ({ s with stack := below }.refuse .second true) .second false v ret →
      Answering s (answer early true) v

/-- `await_suspend()` returns or throws, a stage resumes its handle, or a call of `onStageDone()` or
of the handler of `beginStage()` returns. -/
inductive Ending (s : State Err) : Action Err → State Err → Prop
  | suspendReturns {w : Which} {both : Bool} {below : List (Frame Err)} {v : State Err} :
      s.stack = .suspend w both :: below →
      Continues (State.next both) { s with stack := below } true v → Ending s .suspendReturns v
  | suspendThrows {w : Which} {both ret : Bool} {below : List (Frame Err)} {err : Err}
      {u v : State Err} : s.stack = .suspend w both :: below → s.isIn w .running = true →
      s.stage.isSecond = false → Ends ({ s with stack := below }.switchTo (.exception err)) w both u ret →
      Continues (State.next both) u ret v → Ending s (.suspendThrows err) v
  | suspendFails {w : Which} {both : Bool} {below : List (Frame Err)} {err : Err} :
      s.stack = .suspend w both :: below → s.isIn w .running = true → s.stage.isSecond = true →
      Ending s (.suspendThrows err)
        (({ s with stack := below }.fail w).leave.enter (.destroyThrown err w both))
  | resumes {w : Which} {ret : Bool} {u : State Err} : s.isIn w .running = true →
      Ends s w false u ret → Ending s (.resumes w) u
  | mustResumes {w : Which} {must both ret : Bool} {below : List (Frame Err)} {u v : State Err} :
      s.stack = .mustResume w both :: below → (s.get w).built = true →
      Settles ({ s with stack := below }.refuse w ((s.get w).mustNotResume || !must)) w both u ret →
      Continues (State.next both) u ret v → Ending s (.mustResumeReturns must) v
  | takesResult {both : Bool} {below : List (Frame Err)} : s.stack = .result both :: below →
      s.stage.isSecond = true → Ending s .resultReturns
        ({ s with stack := below, hasSecondResult := true }.destroySecond .none both)
  | resultThrows {both : Bool} {below : List (Frame Err)} {err : Err} :
      s.stack = .result both :: below → s.stage.isSecond = true → Ending s (.resultThrows err)
        ({ s with stack := below }.destroySecond (.exception err) both)
  | destroyed {stage : Stage Err} {both ret : Bool} {below : List (Frame Err)} {u v : State Err} :
      s.stack = .destroySecond stage both :: below → s.first.built = true →
      Joins { s with stack := below, stage := stage } .second both u ret →
      Continues (State.next both) u ret v → Ending s .secondDestroyed v
  | destroyedThrown {err : Err} {w : Which} {both ret : Bool} {below : List (Frame Err)}
      {u v : State Err} : s.stack = .destroyThrown err w both :: below → s.first.built = true →
      Ends { s with stack := below, stage := .exception err } w both u ret →
      Continues (State.next both) u ret v → Ending s .secondDestroyed v

/-- What the parent does before it is suspended. -/
inductive Preparing (s : State Err) : Action Err → State Err → Prop
  | ready {c : Checker} : s.first.built = true → s.stack = [] →
      s.checker.readyReturned (s.first.done && s.second.done) = some c →
      Preparing s .awaitReady { s with checker := c }
  | cancelsEarly {u : State Err} : s.first.built = true → s.stack = [] →
      (s.checker.earlyCancelReturned true).isSome = true →
      DoCancels { s with cancelling := true } true u → Preparing s .awaitEarlyCancel u
  | setsExecutor {c : Checker} {stage : Stage Err} : s.first.built = true → s.stack = [] →
      s.checker.hasExecutor = false → s.checker.aboutToSetExecutor = some c →
      (s.stage = .secondStage ∧ stage = .secondStage ∨ s.stage = .none ∧ stage = .firstStage) →
      Preparing s .awaitSetExecutor { s with checker := c, stage := stage }
  | suspends {c : Checker} {ret : Bool} {u v : State Err} : s.first.built = true → s.stack = [] →
      s.checker.aboutToSuspend = some c →
      Begins { s with checker := c, parent := true } .first s.stage.isSecond u ret →
      Continues (State.next s.stage.isSecond) u ret v → Preparing s .awaitSuspend v

/-- What the parent does afterwards. -/
inductive Performing (s : State Err) : Action Err → State Err → Prop
  | cancels {u : State Err} : s.first.built = true → s.checker.state = .running →
      DoCancels { s with checker := s.checker.set .cancelling, cancelling := true } false u →
      Performing s .awaitCancel u
  | mustResume : s.first.built = true → s.stage.isSecond = false →
      s.checker.state = .readyAfterCancel → Performing s .awaitMustResume { s with
        checker := s.checker.set (if s.mustResume then .ready else .cancelled) }
  | takes {c : Checker} : s.first.built = true → s.checker.aboutToResume = some c →
      Performing s .awaitResume { s with checker := c }
  | destroys : s.first.built = true → s.checker.mayReset = true →
      (s.checker.state = .initial → s.stack = []) → Performing s .destroy { s with
        stage := .none
        second := { s.second with built := false }
        first := { s.first with built := false } }

/-- Everything that a step can do. -/
inductive Change (s : State Err) : Action Err → State Err → Prop
  | answers {w : Which} {ready : Bool} :
      Change s (.answers w ready) (s.set w { s.get w with ready := ready })
  | making {a : Action Err} {t : State Err} : Making s a t → Change s a t
  | answering {a : Action Err} {t : State Err} : Answering s a t → Change s a t
  | ending {a : Action Err} {t : State Err} : Ending s a t → Change s a t
  | preparing {a : Action Err} {t : State Err} : Preparing s a t → Change s a t
  | performing {a : Action Err} {t : State Err} : Performing s a t → Change s a t

theorem leave_of_not (h : s.second.built = false) : s.leave = { s with stage := .none } := by
  obtain ⟨stage, cancelling, result, first, second, parent, signalled, thrown, checker, finishes,
    stack⟩ := s
  obtain ⟨started, cancelling', done, must', life, built, asked, ready⟩ := second
  cases h
  rfl

theorem switchTo_of_not {stage : Stage Err} (h : s.second.built = false) :
    s.switchTo stage = { s with stage := stage } := by
  unfold State.switchTo
  rw [leave_of_not h]

/-- While `then()` runs there is no second stage. -/
theorem Core.built_of_thenFn {executor : Bool} {below : List (Frame Err)} (hc : Core s)
    (hst : s.stack = .thenFn executor :: below) : s.second.built = false := by
  have hnew := (hc.thenFn (.thenFn executor) (by rw [hst]; exact List.mem_cons_self) rfl).1
  by_contra h
  exact hc.second.built (by simpa using h) hnew

theorem making_of_started (h : s.internal .started = .ok t) (hc : Core s) :
    Making s .started t := by
  simp only [State.internal] at h
  split_ifs at h with hm
  unfold State.markStarted at h
  simp only at h
  split_ifs at h with hd hcan
  · cases h
    exact .ignored hm (by simpa using hd) hcan
  · cases h
    have hsig : s.signalled = false := by
      simp only [State.maySignal, Bool.and_eq_true, Bool.not_eq_true'] at hm
      exact hm.1
    have hnb : ({ s with signalled := true } : State Err).second.built = false := by
      by_contra hb
      exact hc.second.built (by simpa using hb) (hc.unsignalled hsig).1
    rw [leave_of_not hnb]
    exact .signals hm (by simpa using hd) (by simpa using hcan)

theorem making_of_thenReturns {executor : Bool} {below : List (Frame Err)} (hc : Core s)
    (hst : s.stack = .thenFn executor :: below)
    (h : { s with stack := below }.thenReturns executor = .ok t) : Making s .thenReturns t := by
  obtain ⟨hnew, hdone⟩ := hc.thenFn (.thenFn executor) (by rw [hst]; exact List.mem_cons_self) rfl
  have hnot : s.second.cancelling = false := by
    by_contra hcan
    exact hc.second.cancelling (by simpa using hcan) hnew
  unfold State.thenReturns at h
  simp only at h
  split_ifs at h with hcan
  · obtain ⟨⟨ret, u⟩, hu, h⟩ := bind_eq_ok.1 h
    cases cancels_of_cancelStage hu with
    | again hcan' => cases hnot.symm.trans hcan'
    | nothing _ hor =>
      rcases hor with he | hd
      · cases he
      · cases hdone.symm.trans hd
    | asks =>
      cases h
      exact .makesCancels hst hcan
  · have hcan' : s.cancelling = false := by simpa using hcan
    unfold State.startSecond at h
    rw [if_neg (by simp)] at h
    cases executor with
    | true =>
      obtain ⟨ret, hb⟩ := begins_of_beginSecond h
      exact .makesBegins hst hcan' hb
    | false =>
      cases h
      exact .makes hst hcan'

theorem making_of_thenThrows {executor : Bool} {below : List (Frame Err)} {err : Err} (hc : Core s)
    (hst : s.stack = .thenFn executor :: below)
    (h : { s with stack := below }.thenThrows err = .ok t) : Making s (.thenThrows err) t := by
  unfold State.thenThrows at h
  have hnb : ({ s with stack := below } : State Err).second.built = false := hc.built_of_thenFn hst
  rw [switchTo_of_not hnb] at h
  obtain ⟨⟨ret, u⟩, hu, h⟩ := bind_eq_ok.1 h
  cases cancels_of_cancelStage hu with
  | again hcan =>
    cases h
    exact .throwsWaits hst hcan
  | nothing hcan hor =>
    cases h
    rcases hor with he | hd
    · cases he
    · exact .throwsLast hst hcan hd
  | asks hcan _ hd hb =>
    cases h
    exact .throwsAsks hst hcan hd hb

/-- `onStageDone()` marks the stage itself. -/
theorem onStageDone_confirm {both : Bool} {next : State Err → Except Fault (State Err)} :
    (s.confirm .second).onStageDone .second both next =
      (s.refuse .second true).onStageDone .second both next := rfl

theorem stageCancelled_true {w : Which} {caller : Caller} :
    s.stageCancelled w caller true = (s.confirm w).returnTo caller true := by
  cases w <;> rfl

theorem answering_of_refused {w : Which} {early : Bool} {caller : Caller}
    {below : List (Frame Err)} (hst : s.stack = .cancelStage w early caller :: below)
    (h : { s with stack := below }.returnTo caller false = .ok t) :
    Answering s (answer early false) t := by
  cases caller with
  | onStageDone both => exact .refusesDone hst (.inl ⟨rfl, h⟩)
  | doCancelSecond e =>
    cases h
    exact .refusesDoCancel hst e (.inl rfl)
  | doCancelFirst e after =>
    cases h
    exact .refusesDoCancel hst e (.inr ⟨after, rfl⟩)
  | thenThrew =>
    cases h
    exact .refusesThrew hst
  | markStarted executor =>
    refine .refusesStarted hst (.inl ⟨rfl, ?_⟩)
    cases executor <;> exact h

theorem answering_of_confirmed {w : Which} {early : Bool} {caller : Caller}
    {below : List (Frame Err)} (hc : Core s) (hst : s.stack = .cancelStage w early caller :: below)
    (hin : s.isIn w (if early then .idle else .running) = true)
    (h : ({ s with stack := below }.confirm w).returnTo caller true = .ok t) :
    Answering s (answer early true) t := by
  have hprop := hc.proper (.cancelStage w early caller) (by rw [hst]; exact List.mem_cons_self)
  cases caller with
  | onStageDone both => exact .confirmsDone hst hin (.inl ⟨rfl, h⟩)
  | doCancelSecond e =>
    obtain rfl : w = .second := by simpa [Frame.proper] using hprop
    exact .confirmsSecond hst hin (cancelsFirst_of_doCancelFirst h)
  | doCancelFirst e after =>
    obtain rfl : w = .first := by simpa [Frame.proper] using hprop
    cases h
    exact .confirmsFirst hst hin
  | thenThrew =>
    obtain rfl : w = .first := by simpa [Frame.proper] using hprop
    cases h
    exact .confirmsThrew hst hin
  | markStarted executor =>
    obtain rfl : w = .second := by simpa [Frame.proper] using hprop
    replace h : (({ s with stack := below } : State Err).confirm .second).onStageDone .second false
        .ok = .ok t := h
    rw [onStageDone_confirm] at h
    obtain ⟨u, ret, he, hcont⟩ := ends_of_onStageDone h
    cases continues_ok hcont
    exact .confirmsStarted hst hin he

theorem answering_of_stageCancelled {w : Which} {done : Bool} {caller : Caller}
    {below : List (Frame Err)} (hc : Core s) (early : Bool)
    (hst : s.stack = .cancelStage w early caller :: below)
    (hin : done = false ∨ s.isIn w (if early then .idle else .running) = true)
    (h : { s with stack := below }.stageCancelled w caller done = .ok t) :
    Answering s (answer early done) t := by
  cases done with
  | false => exact answering_of_refused hst h
  | true =>
    rw [stageCancelled_true] at h
    exact answering_of_confirmed hc hst (hin.resolve_left (by simp)) h

theorem answering_of_beginEarlyCancel {w : Which} {both done : Bool} {below : List (Frame Err)}
    (hst : s.stack = .beginEarlyCancel w both :: below)
    (h : s.internal (.earlyCancelReturns done) = .ok t) : Answering s (.earlyCancelReturns done) t := by
  simp only [State.internal, hst] at h
  split_ifs at h with hd hin
  · subst hd
    obtain ⟨u, ret, hr, hcont⟩ := readies_of_beginReady h
    exact .beginReadies hst hr hcont
  · obtain ⟨u, ret, he, hcont⟩ := ends_of_onStageDone h
    obtain rfl : done = true := by simpa using hd
    refine .beginConfirms hst hin ?_ hcont
    cases w <;> exact he

theorem answering_of_earlyCancelReturns {done : Bool} (hc : Core s)
    (h : s.internal (.earlyCancelReturns done) = .ok t) : Answering s (.earlyCancelReturns done) t := by
  cases hst : s.stack with
  | nil =>
    simp only [State.internal, hst] at h
    cases h
  | cons f below =>
    cases f with
    | beginEarlyCancel w both => exact answering_of_beginEarlyCancel hst h
    | cancelStage w early caller =>
      simp only [State.internal, hst] at h
      cases early with
      | false => cases h
      | true =>
        simp only at h
        split_ifs at h with hin
        exact answering_of_stageCancelled hc true hst hin h
    | _ =>
      simp only [State.internal, hst] at h
      cases h

theorem answering_of_cancelReturns {done : Bool} (hc : Core s)
    (h : s.internal (.cancelReturns done) = .ok t) : Answering s (.cancelReturns done) t := by
  simp only [State.internal] at h
  split at h
  · rename_i hst
    split_ifs at h with hin
    exact answering_of_stageCancelled hc false hst hin h
  · cases h

theorem ending_of_suspendThrew {w : Which} {both : Bool} {below : List (Frame Err)} {err : Err}
    (hst : s.stack = .suspend w both :: below) (hin : s.isIn w .running = true)
    (h : { s with stack := below }.suspendThrew w both err = .ok t) :
    Ending s (.suspendThrows err) t := by
  unfold State.suspendThrew at h
  split_ifs at h with hsec
  · cases h
    have hch : Ending s (.suspendThrows err)
        (({ s with stack := below }.fail w).leave.enter (.destroyThrown err w both)) :=
      .suspendFails hst hin hsec
    cases w <;> exact hch
  · obtain ⟨u, ret, he, hcont⟩ := ends_of_onStageDone h
    exact .suspendThrows hst hin (by simpa using hsec) he hcont

theorem ending_of_mustResumeReturns {must : Bool}
    (h : s.internal (.mustResumeReturns must) = .ok t) : Ending s (.mustResumeReturns must) t := by
  simp only [State.internal] at h
  split at h
  · rename_i w both below hst
    split_ifs at h with hb
    obtain ⟨u, ret, hs, hcont⟩ := settles_of_takeResult h
    refine .mustResumes hst hb ?_ hcont
    cases w <;> exact hs
  · cases h

theorem ending_of_secondDestroyed (h : s.internal .secondDestroyed = .ok t) :
    Ending s .secondDestroyed t := by
  simp only [State.internal] at h
  split at h
  · rename_i hst
    split_ifs at h with hb
    obtain ⟨u, ret, hj, hcont⟩ := joins_of_joinStages h
    exact .destroyed hst hb hj hcont
  · rename_i hst
    split_ifs at h with hb
    obtain ⟨u, ret, he, hcont⟩ := ends_of_onStageDone h
    exact .destroyedThrown hst hb he hcont
  · cases h

theorem change_of_internal {a : Action Err} (hc : Core s) (h : s.internal a = .ok t) :
    Change s a t := by
  cases a with
  | firstReturns =>
    simp only [State.internal] at h
    split at h
    · cases h
      exact .making (.constructs ‹_›)
    · cases h
  | firstThrows =>
    simp only [State.internal] at h
    split at h
    · rename_i hst
      -- The first stage has not been constructed yet.
      have hnew := hc.construct .construct (by rw [hst]; exact List.mem_cons_self) rfl
      have hnb : ¬ s.first.built = true := fun hb => hc.first.built hb hnew
      simp only [State.destroy] at h
      rw [if_neg hnb] at h
      cases h
    · cases h
  | started => exact .making (making_of_started h hc)
  | thenReturns =>
    simp only [State.internal] at h
    split at h
    · exact .making (making_of_thenReturns hc ‹_› h)
    · cases h
  | thenThrows err =>
    simp only [State.internal] at h
    split at h
    · exact .making (making_of_thenThrows hc ‹_› h)
    · cases h
  | answers w ready =>
    cases h
    exact .answers
  | earlyCancelReturns done => exact .answering (answering_of_earlyCancelReturns hc h)
  | cancelReturns done => exact .answering (answering_of_cancelReturns hc h)
  | suspendReturns =>
    simp only [State.internal] at h
    split at h
    · exact .ending (.suspendReturns ‹_› (.inl ⟨rfl, h⟩))
    · cases h
  | suspendThrows err =>
    simp only [State.internal] at h
    split at h
    · rename_i hst
      split_ifs at h with hin
      exact .ending (ending_of_suspendThrew hst hin h)
    · cases h
  | resumes w =>
    simp only [State.internal] at h
    split_ifs at h with hin
    obtain ⟨u, ret, he, hcont⟩ := ends_of_onStageDone h
    cases continues_ok hcont
    exact .ending (.resumes hin he)
  | mustResumeReturns must => exact .ending (ending_of_mustResumeReturns h)
  | resultReturns =>
    simp only [State.internal] at h
    split at h
    · rename_i hst
      split_ifs at h with hsec
      cases h
      exact .ending (.takesResult hst hsec)
    · cases h
  | resultThrows err =>
    simp only [State.internal] at h
    split at h
    · rename_i hst
      split_ifs at h with hsec
      cases h
      exact .ending (.resultThrows hst hsec)
    · cases h
  | secondDestroyed => exact .ending (ending_of_secondDestroyed h)
  | awaitReady | awaitEarlyCancel | awaitSetExecutor | awaitSuspend | awaitCancel
    | awaitMustResume | awaitResume | destroy => cases h

theorem check_eq_ok {c : Option Checker} (h : s.check c = .ok t) :
    ∃ c', c = some c' ∧ t = { s with checker := c' } := by
  cases c with
  | none => cases h
  | some c =>
    cases h
    exact ⟨c, rfl, rfl⟩

theorem preparing_of_prepare {a : Action Err} (hc : Core s) (hb : s.first.built = true)
    (hst : s.stack = []) (h : s.prepare a = .ok t) : Preparing s a t := by
  cases a with
  | awaitReady =>
    obtain ⟨c, hcheck, rfl⟩ := check_eq_ok h
    exact .ready hb hst hcheck
  | awaitEarlyCancel =>
    simp only [State.prepare] at h
    split_ifs at h with hsome
    exact .cancelsEarly hb hst hsome (doCancels_of_doCancel h)
  | awaitSetExecutor =>
    simp only [State.prepare] at h
    split_ifs at h with hex
    obtain ⟨u, hu, h⟩ := bind_eq_ok.1 h
    obtain ⟨c, hcheck, rfl⟩ := check_eq_ok hu
    simp only [State.setExecutor] at h
    rw [if_pos hb] at h
    split at h
    · rename_i hstage
      split_ifs at h
      cases h
      have hch := Preparing.setsExecutor hb hst (by simpa using hex) hcheck (.inl ⟨hstage, rfl⟩)
      rw [← hstage] at hch
      exact hch
    · rename_i hstage
      have hnb : ({ s with checker := c } : State Err).second.built = false := by
        show s.second.built = false
        rw [hc.built, hstage]
        rfl
      rw [switchTo_of_not hnb] at h
      cases h
      exact .setsExecutor hb hst (by simpa using hex) hcheck (.inr ⟨hstage, rfl⟩)
    · cases h
  | awaitSuspend =>
    simp only [State.prepare] at h
    obtain ⟨u, hu, h⟩ := bind_eq_ok.1 h
    obtain ⟨c, hcheck, rfl⟩ := check_eq_ok hu
    obtain ⟨v, ret, hbeg, hcont⟩ := begins_of_beginStage h
    exact .suspends hb hst hcheck hbeg hcont
  | _ => cases h

theorem performing_of_perform {a : Action Err} (hc : Core s) (hb : s.first.built = true)
    (h : s.perform a = .ok t) : Performing s a t := by
  cases a with
  | awaitCancel =>
    simp only [State.perform] at h
    obtain ⟨u, hu, h⟩ := bind_eq_ok.1 h
    obtain ⟨c, hcheck, rfl⟩ := check_eq_ok hu
    unfold Checker.aboutToCancel at hcheck
    split_ifs at hcheck with hrun
    cases hcheck
    exact .cancels hb hrun (doCancels_of_doCancel h)
  | awaitMustResume =>
    simp only [State.perform] at h
    by_cases hin : s.exists .second = true
    · rw [if_pos hin] at h
      cases h
    · rw [if_neg hin] at h
      obtain ⟨c, hcheck, rfl⟩ := check_eq_ok h
      unfold Checker.mustResumeReturned at hcheck
      by_cases hrac : s.checker.state = .readyAfterCancel
      · rw [if_pos hrac] at hcheck
        cases hcheck
        exact .mustResume hb (by simpa using hin) hrac
      · rw [if_neg hrac] at hcheck
        cases hcheck
  | awaitResume =>
    simp only [State.perform] at h
    obtain ⟨u, hu, h⟩ := bind_eq_ok.1 h
    obtain ⟨c, hcheck, rfl⟩ := check_eq_ok hu
    unfold State.awaitResume at h
    split_ifs at h
    cases h
    exact .takes hb hcheck
  | destroy =>
    simp only [State.perform] at h
    split_ifs at h with hr
    unfold State.destroy at h
    rw [if_pos hb] at h
    cases h
    have hnb : (s.second.built && !s.stage.isSecond) = false := by
      rw [hc.built]
      simp
    unfold State.leave
    rw [hnb]
    exact .destroys hb hr.1 hr.2
  | _ => cases h

/-- Nothing else happens. -/
theorem change_of_step {a : Action Err} (hc : Core s) (h : step s a = .ok t) : Change s a t := by
  unfold With.step at h
  split at h
  · exact change_of_internal hc h
  · split_ifs at h with hp
    exact .preparing (preparing_of_prepare hc hp.1 hp.2 h)
  · split_ifs at h with hb
    exact .performing (performing_of_perform hc hb h)

end Corral.With
