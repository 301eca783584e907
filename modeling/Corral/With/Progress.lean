import Corral.With.Finishing
import Corral.With.Preparation
import Corral.With.Within

/-!
# How a `with()` scope gets on

That a scope finishes needs one more condition: if the first stage signals readiness after
`await_set_executor()` and before `await_suspend()`, the second stage is begun at once and may end,
with the first one, before there is a parent to resume.

* `Punctual`: the runs in which this does not happen;
* `Signals`: whether the second stage is begun as soon as it is made;
* `Early`: what holds until the parent is suspended;
* `Asked`: whether the parent has been cancelled.
-/

namespace Corral.With

open ActionMachine AwaiterStateChecker

variable {Err : Type*} {s t u : State Err}

/-- The first stage does not signal readiness between `await_set_executor()` and
`await_suspend()`. -/
def Punctual (s : State Err) (a : Action Err) : Prop :=
  Orderly s a ∧ (a = .started → s.checker.hasExecutor = true → s.parent = true)

instance [DecidableEq Err] (s : State Err) (a : Action Err) : Decidable (Punctual s a) :=
  inferInstanceAs (Decidable (_ ∧ _))

/-! ### How the second stage is begun -/

/-- The calls after which the second stage is left alone although it has been made. -/
def Frame.idles : Frame Err → Bool
  | .thenFn executor => !executor
  | .cancelStage _ _ (.markStarted executor) => !executor
  | _ => false

theorem idles_of_inside {f : Frame Err} (h : f.inside = true) : f.idles = false := by
  cases f with
  | cancelStage w early caller => cases caller <;> first | rfl | cases h
  | _ => first | rfl | cases h

/-- Until the first stage has signalled readiness it is the current one, so that the second stage is
begun as soon as it is made, unless the parent has not been suspended yet. -/
structure Signals (s : State Err) : Prop where
  inFirst : s.checker.hasExecutor = true → s.signalled = false → s.first.built = true →
    s.first.done = false → s.stage.isFirst = true
  idles : ∀ f ∈ s.stack, f.idles = true → s.parent = false

theorem signals_init : Signals (State.init : State Err) where
  inFirst := fun h => by cases h
  idles := fun _ _ _ => rfl

theorem Signals.pop {f : Frame Err} {below : List (Frame Err)} (hk : Signals s)
    (hst : s.stack = f :: below) : Signals { s with stack := below } :=
  { hk with idles := fun g hg => hk.idles g (hst ▸ List.mem_cons_of_mem f hg) }

theorem Signals.within (hk : Signals s) (hw : Within s u) : Signals u where
  inFirst := fun h₁ h₂ h₃ h₄ => by
    rw [hw.executor] at h₁
    rw [hw.signalled] at h₂
    rw [hw.built] at h₃
    have hd : s.first.done = false := by
      by_contra h
      cases h₄.symm.trans (hw.done (by simpa using h))
    have hin := hk.inFirst h₁ h₂ h₃ hd
    rw [hw.stage (by cases hst : s.stage <;> rw [hst] at hin <;> first | rfl | cases hin)]
    exact hin
  idles := fun f hf h => by
    rw [hw.parent]
    rcases hw.fresh f hf with hf | hf
    · exact hk.idles f hf h
    · cases (idles_of_inside hf).symm.trans h

theorem Signals.refuse {w : Which} {no : Bool} (hk : Signals s) : Signals (s.refuse w no) := by
  cases w <;> exact { hk with }

theorem Signals.confirm {w : Which} (hk : Signals s) : Signals (s.confirm w) :=
  hk.refuse.within within_finish

/-- The first stage has signalled readiness. -/
theorem Signals.of_signalled (hk : ∀ f ∈ s.stack, f.idles = true → s.parent = false)
    (hsig : s.signalled = true) : Signals s where
  inFirst := fun _ h => absurd (hsig.symm.trans h) (by simp)
  idles := hk

theorem Signals.made {executor : Bool} {below : List (Frame Err)} (hc : Core s) (hk : Signals s)
    (hst : s.stack = .thenFn executor :: below) : Signals ({ s with stack := below }.made) :=
  .of_signalled (hk.pop hst).idles (hc.opened hst rfl).1

theorem Signals.thenThrew {executor : Bool} {below : List (Frame Err)} {err : Err} (hc : Core s)
    (hk : Signals s) (hst : s.stack = .thenFn executor :: below) :
    Signals { s with stack := below, stage := .exception err, thrown := some err } :=
  .of_signalled (hk.pop hst).idles (hc.opened hst rfl).1

/-- Once the parent is suspended, the first stage is the current one when it signals readiness. -/
theorem Signals.signals (hc : Core s) (hk : Signals s) (hm : s.maySignal = true)
    (hnd : s.first.done = false) :
    Signals ({ s with signalled := true, stage := .none }.enter (.thenFn s.stage.isFirst)) := by
  refine .of_signalled (List.forall_mem_cons.2 ⟨fun h => ?_, hk.idles⟩) rfl
  show s.parent = false
  by_contra hp
  have hp' : s.parent = true := by simpa using hp
  have hb : s.first.built = true := by
    simp only [State.maySignal, Bool.and_eq_true, Bool.or_eq_true] at hm
    rcases hm.2 with (hcon | hin) | hin
    · obtain ⟨f, hf, hcon⟩ := List.any_eq_true.1 hcon
      exact absurd (hc.construct f hf hcon) (hc.parented hp').1
    · exact (isIn_iff.1 hin).1
    · exact (isIn_iff.1 hin).1
  have hin := hk.inFirst (hc.executor (.inr hp')) (unsignalled_of_maySignal hm) hb hnd
  simp [Frame.idles, hin] at h

theorem Signals.making {a : Action Err} (hc : Core s) (hk : Signals s) (h : Making s a t) :
    Signals t := by
  cases h with
  | constructs hst =>
    have hnew := hc.construct _ (mem_top hst) rfl
    exact { hk.pop hst with inFirst := fun h => absurd hnew (hc.prepared h) }
  | ignored => exact .of_signalled hk.idles rfl
  | signals hm hnd => exact hk.signals hc hm hnd
  | makes hst => exact hk.made hc hst
  | makesBegins hst _ hb => exact (hk.made hc hst).within (within_begins hb)
  | @makesCancels executor _ hst =>
    refine .of_signalled (List.forall_mem_cons.2 ⟨fun h => ?_, (hk.pop hst).idles⟩)
      (hc.opened hst rfl).1
    exact hk.idles (.thenFn executor) (mem_top hst) h
  | throwsWaits hst => exact hk.thenThrew hc hst
  | throwsLast hst => exact (hk.thenThrew hc hst).within within_resumeParent
  | throwsAsks hst =>
    exact .of_signalled (List.forall_mem_cons.2 ⟨fun h => (by cases h), (hk.pop hst).idles⟩)
      (hc.opened hst rfl).1

theorem Signals.answering {a : Action Err} (hk : Signals s) (h : Answering s a t) : Signals t := by
  cases h with
  | beginReadies hst hr hcont =>
    exact (hk.pop hst).within ((within_readies hr).trans (within_next hcont))
  | beginConfirms hst _ he hcont =>
    exact (hk.pop hst).refuse.within ((within_ends he).trans (within_next hcont))
  | refusesDone hst hcont => exact (hk.pop hst).within (within_next hcont)
  | refusesDoCancel hst => exact (hk.pop hst).within within_cancelReturned
  | refusesThrew hst => exact hk.pop hst
  | refusesStarted hst hcont => exact (hk.pop hst).within (within_next hcont)
  | confirmsDone hst _ hcont =>
    exact (hk.pop hst).confirm.within (within_resumeParent.trans (within_next hcont))
  | confirmsSecond hst _ h => exact (hk.pop hst).confirm.within (within_cancelsFirst h)
  | confirmsFirst hst => exact (hk.pop hst).confirm.within within_cancelReturned
  | confirmsThrew hst => exact (hk.pop hst).confirm.within within_resumeParent
  | confirmsStarted hst _ he => exact (hk.pop hst).refuse.within (within_ends he)

/-- What is entered after a stage has ended, or the second one has been destroyed. -/
theorem Signals.of_second {u : State Err} (hc : Core s) (hk : Signals s) (hne : s.second.life ≠ .new)
    (hp : u.parent = s.parent) (hsig : u.signalled = s.signalled)
    (hst : ∀ f ∈ u.stack, f ∈ s.stack ∨ f.inside = true) : Signals u := by
  refine .of_signalled (fun f hf h => ?_) (hsig.trans (hc.signalled_of_second hne))
  rw [hp]
  rcases hst f hf with hf | hf
  · exact hk.idles f hf h
  · cases (idles_of_inside hf).symm.trans h

theorem Signals.ending {a : Action Err} (hc : Core s) (hk : Signals s) (h : Ending s a t) :
    Signals t := by
  have hw := keeps_ending h
  -- What is below the call that has returned has been there before.
  have hsub : ∀ {f : Frame Err} {below}, s.stack = f :: below → ∀ g ∈ below, g ∈ s.stack :=
    fun hst g hg => hst ▸ List.mem_cons_of_mem _ hg
  cases h with
  | suspendReturns hst hcont => exact (hk.pop hst).within (within_next hcont)
  | @suspendThrows w _ _ below err _ _ hst hin _ he hcont =>
    have hin' := (within_ends he).trans (within_next hcont)
    cases w with
    | first =>
      refine ⟨fun _ _ _ hnd => ?_, fun f hf h => ?_⟩
      · cases hnd.symm.trans ((within_next hcont).done (life_ends he).1)
      · rw [hin'.parent]
        rcases hin'.fresh f hf with hf | hf
        · exact (hk.pop hst).idles f hf h
        · cases (idles_of_inside hf).symm.trans h
    | second =>
      refine hk.of_second hc (not_new_of_alive (alive_of_isIn hin rfl)) hw.parent hw.signalled ?_
      exact fun f hf => (hin'.fresh f hf).imp (hsub hst f) id
  | @suspendFails w _ _ _ hst _ hsec =>
    refine hk.of_second hc (hc.second.built (hc.built.trans hsec)) hw.parent hw.signalled ?_
    refine List.forall_mem_cons.2 ⟨.inr rfl, fun f hf => .inl ?_⟩
    cases w <;> exact hsub hst f hf
  | resumes _ he => exact hk.within (within_ends he)
  | mustResumes hst _ hs hcont =>
    exact (hk.pop hst).refuse.within ((within_settles hs).trans (within_next hcont))
  | takesResult hst hin =>
    refine hk.of_second hc (hc.second.built (hc.built.trans hin)) rfl rfl ?_
    exact List.forall_mem_cons.2 ⟨.inr rfl, fun f hf => .inl (hsub hst f hf)⟩
  | resultThrows hst hin =>
    exact (hk.pop hst).within (within_destroySecond hin)
  | destroyed hst _ hj hcont =>
    have hin' := (within_joins hj).trans (within_next hcont)
    refine hk.of_second hc (hc.gone _ (mem_top hst) rfl).1 hw.parent hw.signalled ?_
    exact fun f hf => (hin'.fresh f hf).imp (hsub hst f) id
  | destroyedThrown hst _ he hcont =>
    have hin' := (within_ends he).trans (within_next hcont)
    refine hk.of_second hc (hc.gone _ (mem_top hst) rfl).1 hw.parent hw.signalled ?_
    exact fun f hf => (hin'.fresh f hf).imp (hsub hst f) id

theorem Signals.preparing {a : Action Err} (hc : Core s) (hk : Signals s) (h : Preparing s a t) :
    Signals t := by
  cases h with
  | ready _ _ hcheck =>
    exact { hk with inFirst := fun h => hk.inFirst ((readyReturned_hasExecutor hcheck).symm.trans h) }
  | cancelsEarly _ _ _ h =>
    have hu : Signals { s with cancelling := true } := { hk with }
    exact hu.within (within_doCancels h)
  | setsExecutor _ hst _ _ hor =>
    refine { hk with inFirst := fun _ hsig _ _ => ?_ }
    rcases hor with ⟨h, -⟩ | ⟨-, h⟩
    · have hb : s.second.built = true := by
        rw [hc.built, h]
        rfl
      cases (hc.signalled_of_second (hc.second.built hb)).symm.trans hsig
    · rw [h]
      rfl
  | @suspends c _ _ _ _ hst hcheck hbeg hcont =>
    have hu : Signals { s with checker := c, parent := true } := { hk with
      inFirst := fun _ => hk.inFirst (aboutToSuspend_hasExecutor hcheck).1
      idles := fun f hf => (by
        rw [show s.stack = _ from hst] at hf
        cases hf) }
    exact hu.within ((within_begins hbeg).trans (within_next hcont))

theorem Signals.performing {a : Action Err} (hk : Signals s) (h : Performing s a t) : Signals t := by
  cases h with
  | cancels _ _ h =>
    have hu : Signals { s with checker := s.checker.set .cancelling, cancelling := true } :=
      { hk with }
    exact hu.within (within_doCancels h)
  | mustResume => exact { hk with }
  | takes _ hcheck =>
    exact { hk with inFirst := fun h => hk.inFirst ((aboutToResume_hasExecutor hcheck).symm.trans h) }
  | destroys => exact { hk with inFirst := fun _ _ h => (by cases h) }

theorem Signals.change {a : Action Err} (hc : Core s) (hk : Signals s) (h : Change s a t) :
    Signals t := by
  cases h with
  | @answers w => cases w <;> exact { hk with }
  | making h => exact hk.making hc h
  | answering h => exact hk.answering h
  | ending h => exact hk.ending hc h
  | preparing h => exact hk.preparing hc h
  | performing h => exact hk.performing h

/-! ### Before the parent is suspended -/

/-- `then()` has thrown, and the scope has not got an executor. -/
def State.threwEarly (s : State Err) : Prop :=
  (∃ err, s.stage = .exception err) ∧ s.checker.hasExecutor = false

/-- What holds until the parent is suspended: `then()` does not run once the scope has an executor,
and the first stage does not end without the scope, unless `then()` has thrown. -/
structure Early (s : State Err) : Prop extends Unbegun s where
  calls : ∀ f ∈ s.stack, f.isThen = true → s.checker.hasExecutor = false
  threw : ∀ early, .cancelStage .first early .thenThrew ∈ s.stack → s.first.built = true →
    s.threwEarly
  first : s.finishes = [] → s.first.built = true → s.first.done = true → s.threwEarly

theorem early_init : Early (State.init : State Err) :=
  { unbegun_init with
    calls := fun _ _ _ => rfl
    threw := fun _ h => by simp [State.init] at h
    first := fun _ h => by cases h }

theorem Early.pop {f : Frame Err} {below : List (Frame Err)} (he : Early s)
    (hst : s.stack = f :: below) : Early { s with stack := below } :=
  { he.toUnbegun.pop hst with
    calls := fun g hg => he.calls g (hst ▸ List.mem_cons_of_mem f hg)
    threw := fun e h => he.threw e (hst ▸ List.mem_cons_of_mem f h)
    first := he.first }

/-- Nothing of it depends on what the parent has been told. -/
theorem Early.told {c : Checker} {fs : List Finish} (he : Early s)
    (hc : c.hasExecutor = s.checker.hasExecutor) (hfin : fs = [] → s.finishes = []) :
    Early { s with checker := c, finishes := fs } :=
  { he with
    calls := fun f hf h => hc.trans (he.calls f hf h)
    threw := fun e h hb => ⟨(he.threw e h hb).1, hc.trans (he.threw e h hb).2⟩
    first := fun h hb hd => ⟨(he.first (hfin h) hb hd).1, hc.trans (he.first (hfin h) hb hd).2⟩ }

/-- `then()` returns or throws, so that no other activity opens the second stage. -/
theorem Core.not_mem_thenThrew {f : Frame Err} {below : List (Frame Err)} (hc : Core s)
    (hst : s.stack = f :: below) (hop : f.opens = true) (early : Bool) :
    .cancelStage .first early .thenThrew ∉ below := fun hmem =>
  List.countP_eq_zero.1 (hc.opened hst hop).2 _ hmem rfl

theorem Early.thenThrew {executor : Bool} {below : List (Frame Err)} {err : Err} (he : Early s)
    (hst : s.stack = .thenFn executor :: below) :
    Early { s with stack := below, stage := .exception err, thrown := some err } := by
  have hno := he.calls _ (mem_top hst) rfl
  exact { he.toUnbegun.thenThrew hst with
    calls := (he.pop hst).calls
    threw := fun _ _ _ => ⟨⟨err, rfl⟩, hno⟩
    first := fun _ _ _ => ⟨⟨err, rfl⟩, hno⟩ }

theorem Early.making {a : Action Err} (hc : Core s) (hk : Tidy s) (he : Early s) (hu : Unbegun t)
    (hex : a = .started → s.checker.hasExecutor = false) (h : Making s a t) : Early t := by
  cases h with
  | constructs hst =>
    have hnew := hc.construct _ (mem_top hst) rfl
    refine { hu with
      calls := (he.pop hst).calls
      threw := fun e h => ?_
      first := fun _ _ hd => ?_ }
    · exact absurd hnew (hc.first.cancelling
        (hc.asksFirst _ (hst ▸ List.mem_cons_of_mem _ h) rfl))
    · cases hnew.symm.trans (hc.firstDone hd)
  | ignored => exact { he with toUnbegun := hu }
  | signals hm hnd =>
    refine { hu with
      calls := List.forall_mem_cons.2 ⟨fun _ => hex rfl, he.calls⟩
      threw := fun e h => ?_
      first := fun _ _ hd => absurd (hnd.symm.trans hd) (by simp) }
    rcases List.mem_cons.1 h with h | h
    · cases h
    · cases (hc.unsignalled (unsignalled_of_maySignal hm)).2.2 _ h
  | makes hst =>
    have hnd := hk.thenFn _ (mem_top hst) rfl
    exact { hu with
      calls := (he.pop hst).calls
      threw := fun e h => absurd h (hc.not_mem_thenThrew hst rfl e)
      first := fun _ _ hd => absurd (hnd.symm.trans hd) (by simp) }
  | makesBegins hst => cases he.top hst
  | makesCancels hst hcan => cases (he.thenFn _ (mem_top hst) rfl).symm.trans hcan
  | throwsWaits hst => exact he.thenThrew hst
  | throwsLast hst _ hd => cases (hk.thenFn _ (mem_top hst) rfl).symm.trans hd
  | @throwsAsks _ below err hst =>
    have hno := he.calls _ (mem_top hst) rfl
    exact { hu with
      calls := List.forall_mem_cons.2 ⟨fun h => (by cases h), (he.pop hst).calls⟩
      threw := fun _ _ _ => ⟨⟨err, rfl⟩, hno⟩
      first := fun _ _ _ => ⟨⟨err, rfl⟩, hno⟩ }

theorem Early.answering {a : Action Err} (hc : Core s) (he : Early s) (hp : s.parent = false)
    (hu : Unbegun t) (h : Answering s a t) : Early t := by
  cases h with
  | beginReadies hst => cases he.top hst
  | beginConfirms hst => cases he.top hst
  | @refusesDone w _ _ _ _ hst => cases w <;> cases he.top hst
  | refusesDoCancel hst => exact (he.pop hst).told (hasExecutor_cancelReturned _ _ _) id
  | refusesThrew hst => exact he.pop hst
  | @refusesStarted w _ _ _ _ hst => cases w <;> cases he.top hst
  | @confirmsDone w _ _ _ _ hst => cases w <;> cases he.top hst
  | confirmsSecond hst => cases he.top hst
  | @confirmsFirst early e after below hst =>
    have hrun := he.not_running hc
    refine { hu with
      calls := fun f hf h => ?_
      threw := fun e' h hb => ?_
      first := fun h => ?_ }
    · exact (hasExecutor_cancelReturned _ _ _).trans ((he.pop hst).calls f hf h)
    · obtain ⟨h₁, h₂⟩ := (he.pop hst).threw e' h hb
      exact ⟨h₁, (hasExecutor_cancelReturned _ _ _).trans h₂⟩
    · simp [State.cancelReturned, hrun] at h
  | @confirmsThrew early below hst =>
    rw [resumeParent_of_not (by exact hp)] at hu ⊢
    have hthrew := he.threw early (mem_top hst)
    exact { hu with
      calls := (he.pop hst).calls
      threw := (he.pop hst).threw
      first := fun _ hb _ => hthrew hb }
  | confirmsStarted hst => cases he.top hst

theorem Early.cancelsEarly (hc : Core s) (he : Early s) (hu : Unbegun t)
    (h : DoCancels { s with cancelling := true } true t) : Early t := by
  have hrun := he.not_running hc
  cases h with
  | again h => cases hrun.symm.trans h
  | gone h => cases hrun.symm.trans h
  | asks h => cases hrun.symm.trans h
  | first _ h =>
    cases h with
    | @returns done =>
      refine { hu with
        calls := fun f hf h => (hasExecutor_cancelReturned _ _ _).trans (he.calls f hf h)
        threw := fun e h hb => ?_
        first := fun h hb hd => ?_ }
      · obtain ⟨h₁, h₂⟩ := he.threw e h hb
        exact ⟨h₁, (hasExecutor_cancelReturned _ _ _).trans h₂⟩
      · have hfin : s.finishes = [] := by
          cases done <;> simp [State.cancelReturned, hrun] at h
          exact h
        obtain ⟨h₁, h₂⟩ := he.first hfin hb hd
        exact ⟨h₁, (hasExecutor_cancelReturned _ _ _).trans h₂⟩
    | asks => exact { hu with
        calls := List.forall_mem_cons.2 ⟨fun h => (by cases h), he.calls⟩
        threw := fun e h => he.threw e (by simpa [State.enter] using h)
        first := he.first }

theorem Early.preparing {a : Action Err} (hc : Core s) (he : Early s) (hne : a ≠ .awaitSuspend)
    (hu : Unbegun t) (h : Preparing s a t) : Early t := by
  cases h with
  | ready _ _ hcheck => exact he.told (readyReturned_hasExecutor hcheck) id
  | cancelsEarly _ _ _ h => exact he.cancelsEarly hc hu h
  | setsExecutor _ hst _ _ hor =>
    have hno : ∀ f, f ∉ s.stack := by simp [hst]
    refine { hu with
      calls := fun f hf => absurd hf (hno f)
      threw := fun _ h => absurd h (hno _)
      first := fun hfin hb hd => ?_ }
    obtain ⟨⟨err, h⟩, -⟩ := he.first hfin hb hd
    rcases hor with ⟨h', -⟩ | ⟨h', -⟩ <;> cases h.symm.trans h'
  | suspends => exact absurd rfl hne

theorem Early.performing {a : Action Err} (hc : Core s) (he : Early s) (hp : s.parent = false)
    (hu : Unbegun t) (h : Performing s a t) : Early t := by
  cases h with
  | cancels _ hrun => exact absurd hrun (hc.not_running_of_unparented hp)
  | mustResume => exact he.told rfl id
  | takes _ hcheck => exact he.told (aboutToResume_hasExecutor hcheck) id
  | destroys => exact { hu with
      calls := he.calls
      threw := fun _ _ h => (by cases h)
      first := fun _ h => (by cases h) }

theorem Early.change {a : Action Err} (hc : Core s) (hk : Tidy s) (he : Early s)
    (hp : s.parent = false) (hne : a ≠ .awaitSuspend) (hg : Punctual s a) (h : Change s a t) :
    Early t := by
  have hex : a = .started → s.checker.hasExecutor = false := by
    intro ha
    by_contra hex
    cases hp.symm.trans (hg.2 ha (by simpa using hex))
  have hu : Unbegun t := by
    refine he.toUnbegun.change hc hp hne (fun ha => ?_) h
    by_contra hin
    cases (hex ha).symm.trans (hc.executor (.inl (by simpa using hin)))
  cases h with
  | @answers w => cases w <;> exact { he with toUnbegun := hu }
  | making h => exact he.making hc hk hu hex h
  | answering h => exact he.answering hc hp hu h
  | ending h => exact (he.not_ending hc hp h).elim
  | preparing h => exact he.preparing hc hne hu h
  | performing h => exact he.performing hc hp hu h

/-! ### Whether the parent has been cancelled -/

/-- The scope is being cancelled only if the parent has been asked to cancel itself, or
`await_early_cancel()` is being called. -/
def Asked (s : State Err) : Prop :=
  notAsked s.checker.state = true → (∀ f ∈ s.stack, f.isEarly = false) → s.cancelling = false

theorem Asked.pop {f : Frame Err} {below : List (Frame Err)} (ha : Asked s)
    (hst : s.stack = f :: below) (hf : f.isEarly = false) : Asked { s with stack := below } := by
  intro h₁ h₂
  refine ha h₁ ?_
  rw [hst]
  exact List.forall_mem_cons.2 ⟨hf, h₂⟩

/-- None of the calls in progress has returned. -/
theorem Asked.keeps (ha : Asked s) (hw : Keeps s u) (hst : ∀ f ∈ s.stack, f ∈ u.stack) : Asked u := by
  intro h₁ h₂
  rw [hw.cancelling]
  exact ha (hw.asked h₁) fun f hf => h₂ f (hst f hf)

theorem Asked.within (ha : Asked s) (hw : Within s u) : Asked u :=
  ha.keeps hw.toKeeps fun _ hf => hw.stack.subset hf

/-- A call has returned that was not made by `await_early_cancel()`. -/
theorem Asked.popWithin {f : Frame Err} {below : List (Frame Err)} (ha : Asked s)
    (hst : s.stack = f :: below) (hf : f.isEarly = false) (hw : Keeps s u) (hsub : below <:+ u.stack) :
    Asked u := by
  have hk : Keeps { s with stack := below } u := { hw with }
  exact (ha.pop hst hf).keeps hk fun g hg => hsub.subset hg

/-- The parent has been told, so that it knows. -/
theorem asked_cancelReturned {done : Bool} (h : waitsFor s.checker true = true) :
    Asked (s.cancelReturned true done) := by
  have hno : notAsked ((s.checker.earlyCancelReturned done).getD s.checker).state = false := by
    obtain ⟨⟨st, ex⟩, hch⟩ : ∃ c, s.checker = c := ⟨_, rfl⟩
    rw [hch] at h ⊢
    cases done <;> cases st <;> first | rfl | cases h
  intro h₁
  cases hno.symm.trans h₁

/-- `doCancel()` on behalf of `await_early_cancel()`, or of `await_cancel()` if the parent knows. -/
theorem asked_cancelsFirst {early afterSecond : Bool}
    (hw : early = true → waitsFor s.checker true = true) (ha : early = false → Asked s)
    (h : CancelsFirst s early afterSecond u) : Asked u := by
  cases early with
  | false => exact (ha rfl).within (within_cancelsFirst h)
  | true =>
    cases h with
    | returns => exact asked_cancelReturned (hw rfl)
    | asks => exact fun _ h => absurd (h _ List.mem_cons_self) (by simp [Frame.isEarly])

theorem Tidy.waitsFor {f : Frame Err} {below : List (Frame Err)} (hk : Tidy s)
    (hst : s.stack = f :: below) (he : f.isEarly = true) : waitsFor s.checker true = true := by
  by_cases hfin : s.finishes = []
  · have haw := hk.awaited hfin f (mem_top hst)
    cases f with
    | cancelStage w early caller =>
      cases caller with
      | doCancelSecond e =>
        obtain rfl : e = true := he
        exact haw
      | doCancelFirst e a =>
        obtain rfl : e = true := he
        exact haw
      | _ => cases he
    | _ => cases he
  · simp [With.waitsFor, (hk.finished hfin).checker]

theorem notAsked_readyReturned {c c' : Checker} {val : Bool} (h : c.readyReturned val = some c')
    (hn : notAsked c'.state = true) : notAsked c.state = true := by
  obtain ⟨st, ex⟩ := c
  cases st <;> cases val <;> cases h <;> first | rfl | cases hn

theorem Asked.making {a : Action Err} (ha : Asked s) (h : Making s a t) : Asked t := by
  cases h with
  | constructs hst => exact ha.pop hst rfl
  | ignored => exact ha
  | signals => exact fun h₁ h₂ => ha h₁ fun f hf => h₂ f (List.mem_cons_of_mem _ hf)
  | makes hst => exact ha.pop hst rfl
  | @makesBegins below _ _ hst _ hb =>
    have hu : Asked ({ s with stack := below }.made) := ha.pop hst rfl
    exact hu.within (within_begins hb)
  | makesCancels hst =>
    exact fun h₁ h₂ => ha.pop hst rfl h₁ fun f hf => h₂ f (List.mem_cons_of_mem _ hf)
  | throwsWaits hst => exact ha.pop hst rfl
  | @throwsLast _ below err hst =>
    have hu : Asked { s with stack := below, stage := .exception err, thrown := some err } :=
      ha.pop hst rfl
    exact hu.within within_resumeParent
  | throwsAsks hst =>
    exact fun h₁ h₂ => ha.pop hst rfl h₁ fun f hf => h₂ f (List.mem_cons_of_mem _ hf)

theorem stack_refuse {w : Which} {no : Bool} : (s.refuse w no).stack = s.stack := by cases w <;> rfl

theorem stack_confirm {w : Which} : (s.confirm w).stack = s.stack := by cases w <;> rfl

theorem Asked.answering {a : Action Err} (hk : Tidy s) (ha : Asked s) (h : Answering s a t) :
    Asked t := by
  have hw := keeps_answering h
  cases h with
  | beginReadies hst hr hcont =>
    exact ha.popWithin hst rfl hw ((within_readies hr).trans (within_next hcont)).stack
  | beginConfirms hst _ he hcont =>
    have hsub := ((within_ends he).trans (within_next hcont)).stack
    rw [stack_refuse] at hsub
    exact ha.popWithin hst rfl hw hsub
  | refusesDone hst hcont => exact ha.popWithin hst rfl hw (within_next hcont).stack
  | @refusesDoCancel w early caller below hst e hor =>
    cases e with
    | true => exact asked_cancelReturned (hk.waitsFor hst (by rcases hor with rfl | ⟨_, rfl⟩ <;> rfl))
    | false =>
      refine ha.popWithin hst ?_ hw List.suffix_rfl
      rcases hor with rfl | ⟨_, rfl⟩ <;> rfl
  | refusesThrew hst => exact ha.pop hst rfl
  | refusesStarted hst hcont => exact ha.popWithin hst rfl hw (within_next hcont).stack
  | confirmsDone hst _ hcont =>
    have hsub := (within_resumeParent.trans (within_next hcont)).stack
    rw [stack_confirm] at hsub
    exact ha.popWithin hst rfl hw hsub
  | @confirmsSecond early e below _ hst _ h =>
    refine asked_cancelsFirst ?_ ?_ h
    · rintro rfl
      have hw := hk.waitsFor hst rfl
      exact hw
    · rintro rfl
      exact ha.pop hst rfl
  | @confirmsFirst early e after below hst _ =>
    cases e with
    | true =>
      have hw := hk.waitsFor hst rfl
      exact asked_cancelReturned hw
    | false => exact ha.popWithin hst rfl hw List.suffix_rfl
  | confirmsThrew hst =>
    refine ha.popWithin hst rfl hw ?_
    rw [stack_resumeParent, stack_confirm]
  | confirmsStarted hst _ he => exact ha.popWithin hst rfl hw (within_ends he).stack

theorem Asked.ending {a : Action Err} (ha : Asked s) (h : Ending s a t) : Asked t := by
  have hw := keeps_ending h
  cases h with
  | suspendReturns hst hcont => exact ha.popWithin hst rfl hw (within_next hcont).stack
  | suspendThrows hst _ _ he hcont =>
    exact ha.popWithin hst rfl hw ((within_ends he).trans (within_next hcont)).stack
  | @suspendFails w _ below _ hst =>
    refine ha.popWithin hst rfl hw ?_
    cases w <;> exact List.suffix_cons _ below
  | resumes _ he => exact ha.within (within_ends he)
  | mustResumes hst _ hs hcont =>
    have hsub := ((within_settles hs).trans (within_next hcont)).stack
    rw [stack_refuse] at hsub
    exact ha.popWithin hst rfl hw hsub
  | takesResult hst => exact ha.popWithin hst rfl hw (List.suffix_cons _ _)
  | resultThrows hst => exact ha.popWithin hst rfl hw (List.suffix_cons _ _)
  | destroyed hst _ hj hcont =>
    exact ha.popWithin hst rfl hw ((within_joins hj).trans (within_next hcont)).stack
  | destroyedThrown hst _ he hcont =>
    exact ha.popWithin hst rfl hw ((within_ends he).trans (within_next hcont)).stack

theorem Asked.preparing {a : Action Err} (ha : Asked s) (h : Preparing s a t) : Asked t := by
  cases h with
  | ready _ _ hcheck => exact fun h => ha (notAsked_readyReturned hcheck h)
  | cancelsEarly _ _ hsome h =>
    have hw : waitsFor ({ s with cancelling := true } : State Err).checker true = true := by
      simp [waitsFor, hsome]
    cases h with
    | again => exact asked_cancelReturned hw
    | gone _ _ _ h => exact asked_cancelsFirst (fun _ => hw) (by simp) h
    | asks => exact fun _ h => absurd (h _ List.mem_cons_self) (by simp [Frame.isEarly])
    | first _ h => exact asked_cancelsFirst (fun _ => hw) (by simp) h
  | setsExecutor _ _ _ hcheck =>
    intro h
    rw [show _ = _ from aboutToSetExecutor_state hcheck] at h
    exact ha h
  | @suspends c _ _ _ _ _ hcheck hbeg hcont =>
    have hu : Asked { s with checker := c, parent := true } := by
      intro h
      rcases aboutToSuspend_state hcheck with ⟨-, h'⟩ | ⟨h', -⟩
      · exact ha (by rw [h']; rfl)
      · rw [show c.state = _ from h'] at h
        cases h
    exact hu.within ((within_begins hbeg).trans (within_next hcont))

theorem Asked.performing {a : Action Err} (ha : Asked s) (h : Performing s a t) : Asked t := by
  cases h with
  | cancels _ _ h =>
    have hu : Asked { s with checker := s.checker.set .cancelling, cancelling := true } := by
      intro h
      cases h
    exact hu.within (within_doCancels h)
  | mustResume =>
    intro h
    revert h
    cases s.mustResume <;> rintro ⟨⟩
  | takes _ hcheck =>
    intro h
    rw [show _ = _ from aboutToResume_state hcheck] at h
    cases h
  | destroys => exact ha

theorem Asked.change {a : Action Err} (hk : Tidy s) (ha : Asked s) (h : Change s a t) : Asked t := by
  cases h with
  | @answers w => cases w <;> exact ha
  | making h => exact ha.making h
  | answering h => exact ha.answering hk h
  | ending h => exact ha.ending h
  | preparing h => exact ha.preparing h
  | performing h => exact ha.performing h

end Corral.With
