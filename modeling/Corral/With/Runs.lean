import Corral.With.Changes

/-!
# `with()`: what holds in every run

* `core_of_reach`: `Core` holds in every run;
* `isOver`, `isTold`: what the checker of the parent says about the end of the scope.
-/

namespace Corral.With

open ActionMachine AwaiterStateChecker

variable {Err : Type*} {s t : State Err}

/-! ### Calls that return -/

theorem mem_top {f : Frame Err} {below : List (Frame Err)} (hst : s.stack = f :: below) :
    f ∈ s.stack := by
  rw [hst]
  exact List.mem_cons_self

theorem Core.refuse {w : Which} {no : Bool} (hc : Core s) : Core (s.refuse w no) := by
  cases w with
  | first => exact { hc with first := { hc.first with } }
  | second => exact { hc with second := { hc.second with } }

theorem life_refuse (w w' : Which) (no : Bool) : ((s.refuse w no).get w').life = (s.get w').life := by
  cases w <;> cases w' <;> rfl

theorem Core.confirm {w : Which} (hc : Core s) (hal : (s.get w).life.alive = true) :
    Core (s.confirm w) := by
  refine hc.refuse.finish ?_ ?_
  · rw [life_refuse]
    exact not_new_of_alive hal
  · rw [life_refuse]
    exact not_threw_of_alive hal

/-- When a call returns that belongs to the activity that opens the second stage, there is no other
one. -/
theorem Core.opened {f : Frame Err} {below : List (Frame Err)} (hc : Core s) (hst : s.stack = f :: below)
    (hop : f.opens = true) : s.signalled = true ∧ below.countP Frame.opens = 0 := by
  constructor
  · by_contra hsig
    have hno := (hc.unsignalled (by simpa using hsig)).2.2 f (by rw [hst]; exact List.mem_cons_self)
    cases hno.symm.trans hop
  · have honce := hc.once
    rw [hst, List.countP_cons, if_pos hop] at honce
    omega

/-- No other call than a cancellation of the first stage, or its end, is made while `then()` runs. -/
theorem Core.not_then_below {f : Frame Err} {below : List (Frame Err)} (hc : Core s)
    (hst : s.stack = f :: below) (hf : f.overThen = false) : ∀ g ∈ below, g.isThen = false := by
  intro g hg
  by_contra hthen
  have hn := hc.nested
  rw [hst] at hn
  cases hf.symm.trans (hn.1 ⟨g, hg, by simpa using hthen⟩)

/-- What is known when a call returns that belongs to the end of a stage. -/
theorem Core.mayEnd {f : Frame Err} {w : Which} {both : Bool} {below : List (Frame Err)} (hc : Core s)
    (hst : s.stack = f :: below) (hwhich : both = true → w = .first)
    (hlate : w = .first → f.late = true) (hop : w = .first → both = true → f.opens = true) :
    MayEnd { s with stack := below } w both := by
  refine ⟨hwhich, fun hw => hc.late _ (mem_top hst) (hlate hw), fun hboth => ?_⟩
  exact hc.opened hst (hop (hwhich hboth) hboth)

/-- Only the first stage is begun together with the second one. -/
theorem Core.which {f : Frame Err} {w : Which} {both : Bool} {below : List (Frame Err)} (hc : Core s)
    (hst : s.stack = f :: below) (hf : f.proper = (!both || w == .first)) (hboth : both = true) :
    w = .first := by
  have hprop := hc.proper _ (mem_top hst)
  rw [hf] at hprop
  simpa [hboth] using hprop

theorem Core.mayEnd_suspend {w : Which} {both : Bool} {below : List (Frame Err)} (hc : Core s)
    (hst : s.stack = .suspend w both :: below) : MayEnd { s with stack := below } w both :=
  hc.mayEnd hst (hc.which hst rfl) (by rintro rfl; rfl) (by rintro rfl h; exact h)

theorem Core.mayEnd_mustResume {w : Which} {both : Bool} {below : List (Frame Err)} (hc : Core s)
    (hst : s.stack = .mustResume w both :: below) : MayEnd { s with stack := below } w both :=
  hc.mayEnd hst (hc.which hst rfl) (by rintro rfl; rfl) (by rintro rfl h; exact h)

theorem Core.mayEnd_destroyThrown {err : Err} {w : Which} {both : Bool} {below : List (Frame Err)}
    (hc : Core s) (hst : s.stack = .destroyThrown err w both :: below) :
    MayEnd { s with stack := below, stage := .exception err } w both :=
  (hc.mayEnd hst (hc.which hst rfl) (by rintro rfl; rfl) (by rintro rfl h; exact h)).congr
    rfl rfl rfl

/-- The second stage is not begun after it has ended. -/
theorem Core.both_result {both : Bool} {below : List (Frame Err)} (hc : Core s)
    (hst : s.stack = .result both :: below) : both = false := by
  simpa [Frame.proper] using hc.proper _ (mem_top hst)

theorem Core.both_destroySecond {stage : Stage Err} {both : Bool} {below : List (Frame Err)}
    (hc : Core s) (hst : s.stack = .destroySecond stage both :: below) : both = false := by
  have hprop := hc.proper _ (mem_top hst)
  simp only [Frame.proper, Bool.and_eq_true, Bool.not_eq_true'] at hprop
  exact hprop.1.1

/-- `await_early_cancel()` of a stage that is being begun has returned. -/
theorem Core.mayBegin {w : Which} {both : Bool} {below : List (Frame Err)} (hc : Core s)
    (hst : s.stack = .beginEarlyCancel w both :: below) :
    MayBegin { s with stack := below } w both := by
  refine ⟨hc.mayEnd hst (hc.which hst rfl) (by rintro rfl; rfl) (by rintro rfl h; exact h),
    hc.not_then_below hst rfl, ?_⟩
  rintro rfl
  exact hc.opened hst rfl

/-- A call returns, and the second stage is begun if it is to be. -/
theorem Core.nextPop {f : Frame Err} {below : List (Frame Err)} {both : Bool} (hc : Core s)
    (hst : s.stack = f :: below) (hth : ∀ w, f.isThrown w = false)
    (hop : both = true → f.opens = true)
    (hcont : Continues (State.next both) { s with stack := below } true t) : Core t :=
  (hc.pop hst hth).next (fun hboth _ => hc.opened hst (hop hboth)) hcont

theorem alive_ite {early : Bool} : (if early then Life.idle else Life.running).alive = true := by
  cases early <;> rfl

theorem alive_of_isIn {w : Which} {life : Life} (hin : s.isIn w life = true)
    (hal : life.alive = true) : (s.get w).life.alive = true := by
  rw [(isIn_iff.1 hin).2]
  exact hal

theorem Core.parent_of_started (hc : Core s) (h : s.first.started = true) : s.parent = true := by
  by_contra hp
  cases (hc.unparented (by simpa using hp)).symm.trans h

/-- A stage resumes its handle. -/
theorem Core.mayEnd_of_running {w : Which} (hc : Core s) (hin : s.isIn w .running = true) :
    MayEnd s w false := by
  refine ⟨by simp, ?_, by simp⟩
  rintro rfl
  exact hc.parent_of_started (hc.first.running (isIn_iff.1 hin).2)

/-! ### Making the stages -/

theorem StageOk.make {st : StageState} (h : StageOk st) (hnew : st.life = .new)
    (hdone : st.done = false) : StageOk { st with life := .idle, built := true } where
  ended := fun h' => by cases h'
  done := fun h' => absurd (hdone.symm.trans h') (by simp)
  running := fun h' => by cases h'
  started := fun h' => by
    rcases h.started h' with h' | h' | h' <;> cases hnew.symm.trans h'
  built := fun _ => by simp
  asked := h.asked
  cancelling := fun _ => by simp

theorem Core.constructs {below : List (Frame Err)} (hc : Core s) (hst : s.stack = .construct :: below) :
    Core { s with stack := below, first := { s.first with life := .idle, built := true } } := by
  have hnew := hc.construct _ (mem_top hst) rfl
  have hnot : ∀ f ∈ below, f.isConstruct = true → False := by
    intro f hf hcon
    have hone := hc.constructOnce
    rw [hst, List.countP_cons_of_pos (by rfl)] at hone
    exact List.countP_eq_zero.1 (by omega) f hf hcon
  have hdone : s.first.done = false := by
    by_contra h
    cases hnew.symm.trans (hc.firstDone (by simpa using h))
  have hpop := hc.pop hst fun _ => rfl
  exact { hpop with
    first := hc.first.make hnew hdone
    firstDone := fun h => absurd (hdone.symm.trans h) (by simp)
    parented := fun hp => absurd hnew (hc.parented hp).1
    construct := fun f hf hcon => (hnot f hf hcon).elim
    holds := fun f hf => Frame.holds_of (hpop.holds f hf) id id (fun _ => id)
      (fun h => by cases hnew.symm.trans h) id
    threwFirst := hpop.threwFirst.trans (by simp [hnew])
    prepared := fun h => absurd hnew (hc.prepared h) }

theorem Core.no_opens (hc : Core s) (hsig : s.signalled = false) :
    s.stack.countP Frame.opens = 0 := by
  rw [List.countP_eq_zero]
  intro f hf
  simp [(hc.unsignalled hsig).2.2 f hf]

theorem unsignalled_of_maySignal (h : s.maySignal = true) : s.signalled = false := by
  simp only [State.maySignal, Bool.and_eq_true, Bool.not_eq_true'] at h
  exact h.1

theorem Core.ignored (hc : Core s) (hm : s.maySignal = true) :
    Core { s with signalled := true, second := { s.second with done := true } } := by
  have hsig := unsignalled_of_maySignal hm
  obtain ⟨hnew, -, -⟩ := hc.unsignalled hsig
  have hnot := not_then_of_countP (hc.no_opens hsig)
  exact { hc with
    second := { hc.second with
      ended := fun _ => rfl
      done := fun _ => .inr hnew }
    unsignalled := fun h => (by cases h)
    thenFn := fun f hf h => absurd ((hnot f hf).symm.trans h) (by simp)
    holds := fun f hf => Frame.holds_of (hc.holds f hf) id (fun _ => rfl) (fun _ => id) id id }

theorem Core.signals (hc : Core s) (hm : s.maySignal = true) (hcan : s.first.cancelling = false) :
    Core ({ s with signalled := true, stage := .none }.enter (.thenFn s.stage.isFirst)) := by
  have hsig := unsignalled_of_maySignal hm
  obtain ⟨hnew, hdone, -⟩ := hc.unsignalled hsig
  have hzero := hc.no_opens hsig
  have hnot := not_then_of_countP hzero
  have hnb : s.second.built = false := by
    by_contra hb
    exact hc.second.built (by simpa using hb) hnew
  have hcount : ∀ p : Frame Err → Bool, p (.thenFn s.stage.isFirst) = false →
      (.thenFn s.stage.isFirst :: s.stack).countP p = s.stack.countP p := by
    intro p hp
    rw [List.countP_cons_of_neg (by simp [hp])]
  exact { hc with
    built := hnb
    unsignalled := fun h => (by cases h)
    thenFn := fun f _ _ => ⟨hnew, hdone⟩
    proper := List.forall_mem_cons.2 ⟨rfl, hc.proper⟩
    once := countP_cons_le hc.once fun _ => hzero
    nested := ⟨fun ⟨g, hg, hthen⟩ => absurd ((hnot g hg).symm.trans hthen) (by simp),
      fun _ g hg => (by
        by_contra ha
        cases hcan.symm.trans (hc.asksFirst g hg (by simpa using ha))), hc.nested⟩
    asksFirst := List.forall_mem_cons.2 ⟨fun h => (by cases h), hc.asksFirst⟩
    asksSecond := List.forall_mem_cons.2 ⟨fun h => (by cases h), hc.asksSecond⟩
    askOnce := fun w => (hcount _ rfl).le.trans (hc.askOnce w)
    requested := List.forall_mem_cons.2 ⟨fun h => (by cases h), hc.requested⟩
    late := List.forall_mem_cons.2 ⟨fun h => (by cases h), hc.late⟩
    construct := List.forall_mem_cons.2 ⟨fun h => (by cases h), hc.construct⟩
    constructOnce := (hcount _ rfl).le.trans hc.constructOnce
    gone := List.forall_mem_cons.2 ⟨fun h => (by cases h), hc.gone⟩
    holds := List.forall_mem_cons.2 ⟨trivial, hc.holds⟩
    threwFirst := (hcount _ rfl).trans hc.threwFirst
    threwSecond := (hcount _ rfl).trans hc.threwSecond
    executor := fun h => hc.executor (h.imp (fun h' => by cases h') id) }

theorem Core.made {executor : Bool} {below : List (Frame Err)} (hc : Core s)
    (hst : s.stack = .thenFn executor :: below) : Core ({ s with stack := below }.made) := by
  obtain ⟨hsig, hone⟩ := hc.opened hst rfl
  obtain ⟨hnew, hdone⟩ := hc.thenFn _ (mem_top hst) rfl
  have hnot := not_then_of_countP hone
  have hpop := hc.pop hst fun _ => rfl
  refine { hpop with
    built := rfl
    second := hc.second.make hnew hdone
    unsignalled := fun h => absurd (hsig.symm.trans h) (by simp)
    thenFn := fun f hf h => absurd ((hnot f hf).symm.trans h) (by simp)
    gone := fun f hf h => absurd hnew (hpop.gone f hf h).1
    holds := fun f hf => Frame.holds_of (hpop.holds f hf) id id (fun hop => ?_) id
      fun h => by cases hnew.symm.trans h
    threwSecond := hpop.threwSecond.trans (by simp [hnew, State.made])
    executor := fun h => hc.executor (h.imp (fun h' => by cases h') id) }
  have hno : f.opens = false := by simpa using List.countP_eq_zero.1 hone f hf
  cases hno.symm.trans hop

/-- The stage is not the second one any more, and has not been for a while. -/
theorem Core.thenThrew {executor : Bool} {below : List (Frame Err)} (hc : Core s) (err : Err)
    (hst : s.stack = .thenFn executor :: below) :
    Core { s with stack := below, stage := .exception err, thrown := some err } :=
  { hc.pop hst fun _ => rfl with
    built := hc.built_of_thenFn hst
    executor := fun h => hc.executor (h.imp (fun h' => by cases h') id) }

theorem Core.making {a : Action Err} (hc : Core s) (h : Making s a t) : Core t := by
  cases h with
  | constructs hst => exact hc.constructs hst
  | ignored hm => exact hc.ignored hm
  | signals hm _ hcan => exact hc.signals hm hcan
  | makes hst => exact hc.made hst
  | makesBegins hst _ hb =>
    obtain ⟨hsig, hone⟩ := hc.opened hst rfl
    exact (hc.made hst).begins (.second hsig hone) hb
  | makesCancels hst =>
    obtain ⟨hsig, hone⟩ := hc.opened hst rfl
    have hno : s.second.cancelling = false := by
      by_contra h
      exact hc.second.cancelling (by simpa using h) (hc.thenFn _ (mem_top hst) rfl).1
    refine (hc.made hst).ask .second rfl hno rfl (fun _ => ⟨hsig, hone⟩) ?_ (fun h => by cases h)
      (fun h => by cases h) trivial
    rintro ⟨g, hg, hthen⟩
    cases (not_then_of_countP hone g hg).symm.trans hthen
  | throwsWaits hst => exact hc.thenThrew _ hst
  | throwsLast hst => exact (hc.thenThrew _ hst).resumeParent
  | throwsAsks hst hno _ hb =>
    obtain ⟨hsig, hone⟩ := hc.opened hst rfl
    have hnew := (hc.thenFn _ (mem_top hst) rfl).1
    refine (hc.thenThrew _ hst).ask .first hb hno rfl (fun _ => ⟨hsig, hone⟩) ?_ (fun h => by cases h)
      (fun h => by cases h) hnew
    rintro ⟨g, hg, hthen⟩
    cases (not_then_of_countP hone g hg).symm.trans hthen

/-! ### Answers -/

/-- A stage that is being begun has confirmed its cancellation. -/
theorem Core.refusedEnds {w : Which} {both ret : Bool} {below : List (Frame Err)} {u : State Err}
    (hc : Core s) (hst : s.stack = .beginEarlyCancel w both :: below) (hin : s.isIn w .idle = true)
    (he : Ends ({ s with stack := below }.refuse w true) w both u ret) : Core u := by
  refine (hc.pop hst fun _ => rfl).refuse.endsAlive ?_ ((hc.mayBegin hst).congr ?_ ?_ ?_) he
  · rw [life_refuse]
    have hal := alive_of_isIn hin rfl
    cases w <;> exact hal
  · cases w <;> rfl
  · cases w <;> rfl
  · cases w <;> rfl

/-- The stage that has been asked has confirmed its cancellation. -/
theorem Core.confirmed {w : Which} {early : Bool} {caller : Caller} {below : List (Frame Err)}
    (hc : Core s) (hst : s.stack = .cancelStage w early caller :: below)
    (hin : s.isIn w (if early then .idle else .running) = true) :
    Core ({ s with stack := below }.confirm w) := by
  have hal := alive_of_isIn hin alive_ite
  refine (hc.pop hst fun _ => rfl).confirm ?_
  cases w <;> exact hal

/-- The second stage is begun after the first one only if it is being asked itself. -/
theorem Core.opens_onStageDone {w : Which} {early both : Bool} {below : List (Frame Err)}
    (hc : Core s) (hst : s.stack = .cancelStage w early (.onStageDone both) :: below)
    (hboth : both = true) :
    (Frame.cancelStage w early (.onStageDone both) : Frame Err).opens = true := by
  have hprop := hc.proper _ (mem_top hst)
  obtain rfl : w = .second := by simpa [Frame.proper, hboth] using hprop
  exact hboth

theorem Core.opens_markStarted {w : Which} {early executor : Bool} {below : List (Frame Err)}
    (hc : Core s) (hst : s.stack = .cancelStage w early (.markStarted executor) :: below) :
    (Frame.cancelStage w early (.markStarted executor) : Frame Err).opens = true := by
  have hprop := hc.proper _ (mem_top hst)
  obtain rfl : w = .second := by simpa [Frame.proper] using hprop
  rfl

theorem opens_suspend {w : Which} {both : Bool} {below : List (Frame Err)} (hc : Core s)
    (hst : s.stack = .suspend w both :: below) (hboth : both = true) :
    (Frame.suspend w both : Frame Err).opens = true := by
  obtain rfl := hc.which hst rfl hboth
  exact hboth

theorem Core.answering {a : Action Err} (hc : Core s) (h : Answering s a t) : Core t := by
  cases h with
  | beginReadies hst hr hcont =>
    exact (hc.pop hst fun _ => rfl).readiesNext (hc.mayBegin hst) hr hcont
  | @beginConfirms w both _ below _ _ hst hin he hcont =>
    have hm : MayEnd ({ s with stack := below }.refuse w true) w both := by
      refine (hc.mayBegin hst).congr ?_ ?_ ?_ <;> cases w <;> rfl
    exact (hc.refusedEnds hst hin he).next
      (hm.next fun hret => by subst hret; exact stack_ends he) hcont
  | refusesDone hst hcont => exact hc.nextPop hst (fun _ => rfl) (hc.opens_onStageDone hst) hcont
  | refusesDoCancel hst e hor =>
    refine (hc.pop hst fun _ => rfl).cancelReturned (hc.requested _ (mem_top hst) ?_)
    rcases hor with rfl | ⟨_, rfl⟩ <;> rfl
  | refusesThrew hst => exact hc.pop hst fun _ => rfl
  | refusesStarted hst hcont =>
    exact hc.nextPop hst (fun _ => rfl) (fun _ => hc.opens_markStarted hst) hcont
  | @confirmsDone w _ _ _ _ hst hin hcont =>
    refine (hc.confirmed hst hin).resumeParent.next (fun hboth _ => ?_) hcont
    obtain ⟨hsig, hone⟩ := hc.opened hst (hc.opens_onStageDone hst hboth)
    rw [signalled_resumeParent, stack_resumeParent]
    cases w <;> exact ⟨hsig, hone⟩
  | confirmsSecond hst hin h =>
    exact (hc.confirmed hst hin).cancelsFirst (hc.requested _ (mem_top hst) rfl) h
  | confirmsFirst hst hin =>
    exact (hc.confirmed hst hin).cancelReturned (hc.requested _ (mem_top hst) rfl)
  | confirmsThrew hst hin => exact (hc.confirmed hst hin).resumeParent
  | confirmsStarted hst hin he =>
    refine (hc.pop hst fun _ => rfl).refuse.endsAlive ?_ .second he
    rw [life_refuse]
    exact alive_of_isIn hin alive_ite

/-! ### Stages that end -/

/-- The stage whose `await_suspend()` has thrown waits for the destruction of the second one. -/
theorem Core.life_of_destroyThrown {err : Err} {w : Which} {both : Bool} {below : List (Frame Err)}
    (hc : Core s) (hst : s.stack = .destroyThrown err w both :: below) :
    (s.get w).life = .threw ∧ below.countP (Frame.isThrown w) = 0 := by
  have hl := hc.threw_of_mem (mem_top hst)
  have hcount := hc.countP_isThrown w
  rw [if_pos hl, hst, List.countP_cons_of_pos (by simp [Frame.isThrown])] at hcount
  exact ⟨hl, by omega⟩

/-- The second stage has been destroyed, and the stage that has thrown ends. -/
theorem Core.endsThrown {err : Err} {w : Which} {both : Bool} {below : List (Frame Err)}
    (hc : Core s) (hst : s.stack = .destroyThrown err w both :: below) :
    Core ({ s with stack := below, stage := .exception err }.finish w) := by
  obtain ⟨hl, hzero⟩ := hc.life_of_destroyThrown hst
  have hne : (s.get w).life ≠ .new := by simp [hl]
  have hflags : Flags { s with stack := below, stage := .exception err } := { hc.toFlags with
    built := (hc.gone _ (mem_top hst) rfl).2
    executor := fun h => hc.executor (h.imp (fun h' => by cases h') id) }
  have hcalls : Calls { s with stack := below, stage := .exception err } :=
    { hc.toCalls.pop hst with }
  have hcount : ∀ w', w ≠ w' →
      below.countP (Frame.isThrown w') = if (s.get w').life = .threw then 1 else 0 := by
    intro w' hne
    have h := hc.countP_isThrown w'
    rwa [hst, List.countP_cons_of_neg (by simpa [Frame.isThrown] using hne)] at h
  refine { hflags.finish, hcalls.finish (w := w) ?_ with threwFirst := ?_, threwSecond := ?_ }
  · cases w <;> exact hne
  · cases w with
    | first => exact hzero
    | second => exact hcount .first (by simp)
  · cases w with
    | first => exact hcount .second (by simp)
    | second => exact hzero

theorem Flags.fail {w : Which} (hc : Flags s) (hrun : (s.get w).life = .running) :
    Flags (s.fail w) := by
  cases w with
  | first => exact { hc with
      first := hc.first.fail hrun
      firstDone := fun h => by
        have hno := (show s.first.life = .running from hrun).symm.trans (hc.firstDone h)
        cases hno
      parented := fun hp => ⟨by simp [State.fail], (hc.parented hp).2⟩
      prepared := fun _ => by simp [State.fail] }
  | second => exact { hc with second := hc.second.fail hrun }

theorem Calls.fail {w : Which} (hc : Calls s) (hrun : (s.get w).life = .running) :
    Calls (s.fail w) := by
  cases w with
  | first =>
    have hl : s.first.life = .running := hrun
    exact { hc with
      construct := fun f hf hcon => (by cases hl.symm.trans (hc.construct f hf hcon))
      holds := fun f hf => Frame.holds_of (hc.holds f hf) id id (fun _ => id)
        (fun h => by cases hl.symm.trans h) id }
  | second =>
    have hl : s.second.life = .running := hrun
    have hne : s.second.life ≠ .new := by simp [hl]
    exact { hc with
      unsignalled := fun hsig => absurd (hc.unsignalled hsig).1 hne
      thenFn := fun f hf hthen => absurd (hc.thenFn f hf hthen).1 hne
      gone := fun f hf hd => ⟨by simp [State.fail], (hc.gone f hf hd).2⟩
      holds := fun f hf => Frame.holds_of (hc.holds f hf) id id (fun _ h => absurd h hne) id
        fun h => by cases hl.symm.trans h }

theorem Flags.leave (hc : Flags s) : Flags s.leave ∧ s.leave.second.built = false := by
  have hb : (s.second.built && !s.stage.isSecond) = false := by
    rw [hc.built]
    simp
  exact ⟨{ hc with
    built := hb
    second := { hc.second with built := fun h => absurd (hb.symm.trans h) (by simp) }
    executor := fun h => hc.executor (h.imp (fun h' => by cases h') id) }, hb⟩

theorem Calls.leave (hc : Calls s) (hb : s.leave.second.built = false) : Calls s.leave :=
  { hc with gone := fun f hf hd => ⟨(hc.gone f hf hd).1, hb⟩ }

/-- `await_suspend()` of a stage has thrown, and the second one is destroyed. -/
theorem Core.fails {err : Err} {w : Which} {both : Bool} {below : List (Frame Err)} (hc : Core s)
    (hst : s.stack = .suspend w both :: below) (hin : s.isIn w .running = true)
    (hsec : s.stage.isSecond = true) :
    Core (({ s with stack := below }.fail w).leave.enter (.destroyThrown err w both)) := by
  have hprop : (Frame.destroyThrown err w both).proper = true := (hc.mayEnd_suspend hst).proper
  have hrun : (({ s with stack := below } : State Err).get w).life = .running := by
    cases w <;> exact (isIn_iff.1 hin).2
  have hpop := hc.pop hst fun _ => rfl
  have hm := hc.mayEnd_suspend hst
  have hne : s.second.life ≠ .new := hc.second.built (hc.built.trans hsec)
  have hnot : ∀ g ∈ below, g.isThen = false := fun g hg =>
    hc.not_then hne g (by rw [hst]; exact List.mem_cons_of_mem _ hg)
  obtain ⟨hflags, hb⟩ := (hpop.toFlags.fail hrun).leave
  have hcalls := (hpop.toCalls.fail hrun).leave hb
  have hcount : ∀ w', below.countP (Frame.isThrown w') =
      if (s.get w').life = .threw then 1 else 0 := by
    intro w'
    have h := hpop.countP_isThrown w'
    cases w' <;> exact h
  have hne' : (({ s with stack := below } : State Err).fail w).second.life ≠ .new := by
    cases w with
    | first => exact hne
    | second => simp [State.fail]
  refine { hflags, hcalls.enter ⟨rfl, rfl, hprop, fun hop => ?_, fun hthen => ?_,
    fun w h => (by cases h), fun w h => (by cases h), fun h => (by cases h), fun hl => ?_,
    fun _ => ⟨hne', hb⟩, trivial⟩ with threwFirst := ?_, threwSecond := ?_ }
  · cases w with
    | first => exact hm.one hop
    | second => cases hop
  · obtain ⟨g, hg, hthen⟩ := hthen
    have hno : g.isThen = false := by cases w <;> exact hnot g hg
    cases hno.symm.trans hthen
  · cases w with
    | first => exact hm.parent rfl
    | second => cases hl
  · have hrest := hcount .first
    cases w with
    | first =>
      rw [if_neg (by rw [show (s.get .first).life = .running from hrun]; simp)] at hrest
      show (Frame.destroyThrown err .first both :: below).countP _ = 1
      rw [List.countP_cons_of_pos (by rfl), hrest]
    | second =>
      show (Frame.destroyThrown err .second both :: below).countP _ = _
      rw [List.countP_cons_of_neg (by simp [Frame.isThrown]), hrest]
      rfl
  · have hrest := hcount .second
    cases w with
    | second =>
      rw [if_neg (by rw [show (s.get .second).life = .running from hrun]; simp)] at hrest
      show (Frame.destroyThrown err .second both :: below).countP _ = 1
      rw [List.countP_cons_of_pos (by rfl), hrest]
    | first =>
      show (Frame.destroyThrown err .first both :: below).countP _ = _
      rw [List.countP_cons_of_neg (by simp [Frame.isThrown]), hrest]
      rfl

/-- The second stage has been destroyed. -/
theorem Core.destroyed {stage : Stage Err} {both : Bool} {below : List (Frame Err)} (hc : Core s)
    (hst : s.stack = .destroySecond stage both :: below) :
    Core { s with stack := below, stage := stage } := by
  have hprop := hc.proper _ (mem_top hst)
  simp only [Frame.proper, Bool.and_eq_true, Bool.not_eq_true'] at hprop
  exact { hc.pop hst fun _ => rfl with
    built := (hc.gone _ (mem_top hst) rfl).2.trans hprop.2.symm
    executor := fun h => hc.executor (h.imp (fun h' => by cases hprop.1.2.symm.trans h') id) }

/-- The object of the second stage is gone, and the stages are joined. -/
theorem Core.joinsDestroyed {stage : Stage Err} {ret : Bool} {below : List (Frame Err)}
    {u : State Err} (hc : Core s) (hst : s.stack = .destroySecond stage false :: below)
    (hj : Joins { s with stack := below, stage := stage } .second false u ret) : Core u := by
  have hend : s.second.life = .ended := hc.holds _ (mem_top hst)
  exact (hc.destroyed hst).joins (w := .second) hend .second hj

/-- The object of the second stage is gone, and the stage that has thrown ends. -/
theorem Core.endsDestroyed {err : Err} {w : Which} {both ret : Bool} {below : List (Frame Err)}
    {u : State Err} (hc : Core s) (hst : s.stack = .destroyThrown err w both :: below)
    (he : Ends { s with stack := below, stage := .exception err } w both u ret) : Core u :=
  (hc.endsThrown hst).ends (hc.mayEnd_destroyThrown hst) he

/-- `await_must_resume()` of a stage that has ended returns. -/
theorem Core.mustResumed {w : Which} {both : Bool} {below : List (Frame Err)} (hc : Core s)
    (hst : s.stack = .mustResume w both :: below) (no : Bool) :
    Core ({ s with stack := below }.refuse w no) ∧
      (({ s with stack := below }.refuse w no).get w).life = .ended ∧
      MayEnd ({ s with stack := below }.refuse w no) w both := by
  refine ⟨(hc.pop hst fun _ => rfl).refuse, ?_, (hc.mayEnd_mustResume hst).congr ?_ ?_ ?_⟩
  · rw [life_refuse]
    have hends := hc.holds _ (mem_top hst)
    cases w <;> exact hends
  · cases w <;> rfl
  · cases w <;> rfl
  · cases w <;> rfl

/-- `await_suspend()` of a stage throws. -/
theorem Core.threw {w : Which} {both : Bool} {below : List (Frame Err)} (hc : Core s) (err : Err)
    (hst : s.stack = .suspend w both :: below) (hin : s.isIn w .running = true) :
    Core ({ s with stack := below }.switchTo (.exception err)) ∧
      (({ s with stack := below }.switchTo (.exception err)).get w).life.alive = true ∧
      MayEnd ({ s with stack := below }.switchTo (.exception err)) w both := by
  refine ⟨(hc.pop hst fun _ => rfl).switchTo, ?_, (hc.mayEnd_suspend hst).congr rfl rfl rfl⟩
  have hal := alive_of_isIn hin rfl
  cases w <;> exact hal

theorem Core.ending {a : Action Err} (hc : Core s) (h : Ending s a t) : Core t := by
  cases h with
  | suspendReturns hst hcont =>
    exact hc.nextPop hst (fun _ => rfl) (opens_suspend hc hst) hcont
  | suspendThrows hst hin _ he hcont =>
    obtain ⟨hcs, hal, hm⟩ := hc.threw _ hst hin
    exact (hcs.finish (not_new_of_alive hal) (not_threw_of_alive hal)).endsNext hm he hcont
  | suspendFails hst hin hsec => exact hc.fails hst hin hsec
  | resumes hin he => exact hc.endsAlive (alive_of_isIn hin rfl) (hc.mayEnd_of_running hin) he
  | mustResumes hst _ hs hcont =>
    obtain ⟨hcr, hend, hm⟩ := hc.mustResumed hst _
    exact hcr.settlesNext hend hm hs hcont
  | takesResult hst =>
    rw [hc.both_result hst]
    have hpop := hc.pop hst fun _ => rfl
    exact Core.destroySecond { hpop with } (hc.holds _ (mem_top hst)) rfl
  | resultThrows hst =>
    rw [hc.both_result hst]
    exact (hc.pop hst fun _ => rfl).destroySecond (hc.holds _ (mem_top hst)) rfl
  | destroyed hst _ hj hcont =>
    have hend : s.second.life = .ended := hc.holds _ (mem_top hst)
    have hboth := hc.both_destroySecond hst
    subst hboth
    exact (hc.destroyed hst).joinsNext (w := .second) hend .second hj hcont
  | destroyedThrown hst _ he hcont =>
    exact (hc.endsThrown hst).endsNext (hc.mayEnd_destroyThrown hst) he hcont

/-! ### The parent -/

/-- The parent has made a call before it is suspended, and is not suspended yet. -/
theorem readyReturned_state {c c' : Checker} {val : Bool} (h : c.readyReturned val = some c') :
    (before c.state = false → before c'.state = false) ∧ c'.state.suspended = false ∧
      (askedToCancel c'.state = true → askedToCancel c.state = true) := by
  obtain ⟨st, ex⟩ := c
  cases st <;> cases val <;> cases h <;>
    first | exact ⟨fun h => h, rfl, fun h => h⟩ | exact ⟨fun _ => rfl, rfl, fun _ => rfl⟩

theorem readyReturned_hasExecutor {c c' : Checker} {val : Bool}
    (h : c.readyReturned val = some c') : c'.hasExecutor = c.hasExecutor := by
  obtain ⟨st, ex⟩ := c
  cases st <;> cases val <;> cases h <;> rfl

theorem aboutToSetExecutor_state {c c' : Checker} (h : c.aboutToSetExecutor = some c') :
    c'.state = c.state := by
  obtain ⟨st, ex⟩ := c
  cases st <;> cases h <;> rfl

theorem aboutToSetExecutor_hasExecutor {c c' : Checker} (h : c.aboutToSetExecutor = some c') :
    c'.hasExecutor = true := by
  obtain ⟨st, ex⟩ := c
  cases st <;> cases h <;> rfl

theorem aboutToSuspend_hasExecutor {c c' : Checker} (h : c.aboutToSuspend = some c') :
    c.hasExecutor = true ∧ c'.hasExecutor = true := by
  obtain ⟨st, ex⟩ := c
  cases st <;> cases ex <;> cases h <;> exact ⟨rfl, rfl⟩

theorem aboutToSuspend_state {c c' : Checker} (h : c.aboutToSuspend = some c') :
    c'.state = .running ∧ c.state = .notReady ∨
      c'.state = .cancelling ∧ c.state = .cancelPending := by
  obtain ⟨st, ex⟩ := c
  cases st <;> cases ex <;> cases h <;> first | exact .inl ⟨rfl, rfl⟩ | exact .inr ⟨rfl, rfl⟩

/-- The parent is being suspended. -/
theorem Core.mayBegin_suspends {c : Checker} (hc : Core s) (hst : s.stack = []) :
    MayBegin { s with checker := c, parent := true } .first s.stage.isSecond := by
  refine ⟨⟨fun _ => rfl, fun _ => rfl, fun hin => ⟨?_, ?_⟩⟩, ?_, fun h => by cases h⟩
  · exact hc.signalled_of_second (hc.second.built (hc.built.trans hin))
  · show s.stack.countP Frame.opens = 0
    rw [hst]
    rfl
  · show ∀ f ∈ s.stack, f.isThen = false
    rw [hst]
    simp

theorem Core.suspends {c : Checker} (hc : Core s) (hb : s.first.built = true)
    (hcheck : s.checker.aboutToSuspend = some c) : Core { s with checker := c, parent := true } := by
  have hstate := aboutToSuspend_state hcheck
  refine { hc with
    unparented := fun h => (by cases h)
    parented := fun _ => ⟨hc.first.built hb, ?_⟩
    waiting := fun h => (by cases h)
    asked := fun h => ?_
    late := fun _ _ _ => rfl
    executor := fun _ => (aboutToSuspend_hasExecutor hcheck).2
    prepared := fun _ => hc.first.built hb }
  · rcases hstate with ⟨h, -⟩ | ⟨h, -⟩ <;> rw [h] <;> rfl
  · rcases hstate with ⟨h', -⟩ | ⟨-, h'⟩
    · rw [h'] at h
      cases h
    · exact hc.asked (by rw [h']; rfl)

/-- `doCancel()` has been entered on behalf of `await_early_cancel()`. -/
theorem Core.requestCancel (hc : Core s) : Core { s with cancelling := true } :=
  { hc with
    asked := fun _ => rfl
    requested := fun _ _ _ => rfl }

/-- `doCancel()` has been entered on behalf of `await_cancel()`. -/
theorem Core.cancels (hc : Core s) (hrun : s.checker.state = .running) :
    Core { s with checker := s.checker.set .cancelling, cancelling := true } :=
  { hc with
    parented := fun hp => ⟨(hc.parented hp).1, rfl⟩
    waiting := fun hp => absurd (hc.waiting hp) (by rw [hrun]; simp [State.suspended])
    asked := fun _ => rfl
    requested := fun _ _ _ => rfl }

theorem aboutToResume_state {c c' : Checker} (h : c.aboutToResume = some c') :
    c'.state = .done := by
  unfold Checker.aboutToResume at h
  split_ifs at h
  cases h
  rfl

theorem aboutToResume_hasExecutor {c c' : Checker} (h : c.aboutToResume = some c') :
    c'.hasExecutor = c.hasExecutor := by
  unfold Checker.aboutToResume at h
  split_ifs at h
  cases h
  rfl

theorem Core.preparing {a : Action Err} (hc : Core s) (h : Preparing s a t) : Core t := by
  cases h with
  | ready _ _ hcheck =>
    obtain ⟨hb, hs, ha⟩ := readyReturned_state hcheck
    exact { hc with
      parented := fun hp => ⟨(hc.parented hp).1, hb (hc.parented hp).2⟩
      waiting := fun _ => hs
      asked := fun h => hc.asked (ha h)
      executor := fun h => (readyReturned_hasExecutor hcheck).trans (hc.executor h)
      prepared := fun h => hc.prepared ((readyReturned_hasExecutor hcheck).symm.trans h) }
  | cancelsEarly _ _ _ h => exact hc.requestCancel.doCancels rfl h
  | @setsExecutor _ stage hfb _ _ hcheck hor =>
    have hst := aboutToSetExecutor_state hcheck
    have hb : s.stage.isSecond = stage.isSecond := by
      rcases hor with ⟨h₁, h₂⟩ | ⟨h₁, h₂⟩ <;> simp [h₁, h₂, Stage.isSecond]
    exact { hc with
      built := hc.built.trans hb
      parented := fun hp => ⟨(hc.parented hp).1, by rw [hst]; exact (hc.parented hp).2⟩
      waiting := fun hp => (by rw [hst]; exact hc.waiting hp)
      asked := fun h => hc.asked (by rw [← hst]; exact h)
      executor := fun _ => aboutToSetExecutor_hasExecutor hcheck
      prepared := fun _ => hc.first.built hfb }
  | suspends hb hst hcheck hbeg hcont =>
    exact (hc.suspends hb hcheck).beginsNext (hc.mayBegin_suspends hst) hbeg hcont

theorem Core.performing {a : Action Err} (hc : Core s) (h : Performing s a t) : Core t := by
  cases h with
  | cancels _ hrun h => exact (hc.cancels hrun).doCancels rfl h
  | mustResume =>
    refine { hc with
      parented := fun hp => ⟨(hc.parented hp).1, ?_⟩
      waiting := fun _ => ?_
      asked := fun h => ?_ }
    · cases s.mustResume <;> rfl
    · cases s.mustResume <;> rfl
    · revert h
      cases s.mustResume <;> rintro ⟨⟩
  | takes _ hcheck =>
    have hst := aboutToResume_state hcheck
    exact { hc with
      parented := fun hp => ⟨(hc.parented hp).1, by rw [hst]; rfl⟩
      waiting := fun _ => (by rw [hst]; rfl)
      asked := fun h => (by rw [hst] at h; cases h)
      executor := fun h => (aboutToResume_hasExecutor hcheck).trans (hc.executor h)
      prepared := fun h => hc.prepared ((aboutToResume_hasExecutor hcheck).symm.trans h) }
  | destroys =>
    exact { hc with
      executor := fun h => hc.executor (h.imp (fun h' => by cases h') id)
      built := rfl
      first := { hc.first with built := fun h => by cases h }
      second := { hc.second with built := fun h => by cases h }
      gone := fun f hf hd => ⟨(hc.gone f hf hd).1, rfl⟩ }

theorem Core.change {a : Action Err} (hc : Core s) (h : Change s a t) : Core t := by
  cases h with
  | @answers w =>
    cases w with
    | first => exact { hc with first := { hc.first with } }
    | second => exact { hc with second := { hc.second with } }
  | making h => exact hc.making h
  | answering h => exact hc.answering h
  | ending h => exact hc.ending h
  | preparing h => exact hc.preparing h
  | performing h => exact hc.performing h

theorem core_of_reach {ok : State Err → Action Err → Prop}
    (h : Reach step ok (.init : State Err) s) : Core s :=
  h.invariant core_init fun _ _ _ hc _ hs => hc.change (change_of_step hc hs)

/-! ### The parent is over -/

/-- The states of the checker after the parent has been told that the scope is over. -/
def isOver (st : AwaiterStateChecker.State) : Bool := !before st && !st.suspended

/-- The states of the checker in which the parent takes the scope to be over. -/
def isTold (st : AwaiterStateChecker.State) : Bool := isOver st || st == .readyImmediately

theorem isOver_resumed {c : Checker} (hb : before c.state = false) :
    isOver (c.resumed.getD c).state = true := by
  obtain ⟨st, ex⟩ := c
  cases st <;> first | rfl | cases hb

theorem isOver_cancelReturned {c : Checker} {early done : Bool} (h : isOver c.state = true) :
    isOver ((if early then c.earlyCancelReturned done else c.cancelReturned done).getD c).state =
      true := by
  simp only [isOver, Bool.and_eq_true, Bool.not_eq_true'] at h ⊢
  exact ⟨(cancelReturned_getD _ _ _).1 h.1, (cancelReturned_getD _ _ _).2 h.2⟩

theorem isOver_readyReturned {c c' : Checker} {val : Bool} (h : c.readyReturned val = some c')
    (hover : isOver c.state = true) : isOver c'.state = true := by
  simp only [isOver, Bool.and_eq_true, Bool.not_eq_true'] at hover ⊢
  obtain ⟨hb, hs, -⟩ := readyReturned_state h
  exact ⟨hb hover.1, hs⟩

theorem before_of_earlyCancelReturned {c : Checker}
    (h : (c.earlyCancelReturned true).isSome = true) : before c.state = true := by
  obtain ⟨st, ex⟩ := c
  cases st <;> first | rfl | cases h

end Corral.With
