import Corral.With.Closing

/-!
# A `with()` scope before its stages are begun

Before the parent is suspended the second stage may be made, but it is not begun unless the first one
signals readiness after `await_set_executor()`.

* `Unbegun`: no stage has been begun, and only the first one may have been asked to cancel itself;
* `Unbegun.change`: this stays so until the parent is suspended.
-/

namespace Corral.With

open ActionMachine AwaiterStateChecker

variable {Err : Type*} {s t : State Err}

/-- The calls that occur before a stage is begun. -/
def Frame.plain : Frame Err → Bool
  | .construct => true
  | .thenFn executor => !executor
  | .cancelStage .first _ (.doCancelFirst _ _) => true
  | .cancelStage .first _ .thenThrew => true
  | _ => false

/-- No stage has been begun; the scope is not being cancelled while `then()` runs, and otherwise the
first stage has been asked. -/
structure Unbegun (s : State Err) : Prop where
  second : s.second.life = .new ∨ s.second.life = .idle
  plain : ∀ f ∈ s.stack, f.plain = true
  thenFn : ∀ f ∈ s.stack, f.isThen = true → s.cancelling = false
  cancelled : s.cancelling = true → s.first.cancelling = true ∨ s.first.done = true

theorem unbegun_init : Unbegun (State.init : State Err) where
  second := .inl rfl
  plain := fun f hf => by
    rw [List.mem_singleton.1 hf]
    rfl
  thenFn := fun _ _ _ => rfl
  cancelled := fun h => by cases h

theorem Unbegun.pop {f : Frame Err} {below : List (Frame Err)} (hu : Unbegun s) (hst : s.stack = f :: below) :
    Unbegun { s with stack := below } :=
  { hu with
    plain := fun g hg => hu.plain g (hst ▸ List.mem_cons_of_mem f hg)
    thenFn := fun g hg => hu.thenFn g (hst ▸ List.mem_cons_of_mem f hg) }

/-- The first stage is asked. -/
theorem Unbegun.ask {f : Frame Err} {a : Bool} (hu : Unbegun s) (hf : f.plain = true)
    (hthen : f.isThen = false) :
    Unbegun ({ s with first := { s.first with cancelling := true, asked := a } }.enter f) where
  second := hu.second
  plain := List.forall_mem_cons.2 ⟨hf, hu.plain⟩
  thenFn := List.forall_mem_cons.2 ⟨fun h => absurd (hthen.symm.trans h) (by simp), hu.thenFn⟩
  cancelled := fun _ => .inl rfl

theorem Unbegun.confirmFirst (hu : Unbegun s) : Unbegun (s.confirm .first) :=
  { hu with cancelled := fun _ => .inr rfl }

/-- A call that is in progress is one of the few that may be. -/
theorem Unbegun.top {f : Frame Err} {below : List (Frame Err)} (hu : Unbegun s)
    (hst : s.stack = f :: below) : f.plain = true := hu.plain f (mem_top hst)

theorem Unbegun.not_running (hc : Core s) (hu : Unbegun s) : s.second.isRunning = false := by
  have hstart : s.second.started = false := by
    by_contra h
    rcases hc.second.started (by simpa using h) with h | h | h <;>
      rcases hu.second with h' | h' <;> cases h.symm.trans h'
  simp [StageState.isRunning, hstart]

theorem Unbegun.made {executor : Bool} {below : List (Frame Err)} (hu : Unbegun s)
    (hst : s.stack = .thenFn executor :: below) : Unbegun ({ s with stack := below }.made) :=
  { hu.pop hst with second := .inr rfl }

/-- `await_early_cancel()` asks the first stage, unless that has been done or it has ended. -/
theorem Unbegun.cancelsEarly (hc : Core s) (hu : Unbegun s) (hst : s.stack = [])
    (h : DoCancels { s with cancelling := true } true t) : Unbegun t := by
  have hrun := hu.not_running hc
  cases h with
  | again h => cases hrun.symm.trans h
  | gone h => cases hrun.symm.trans h
  | asks h => cases hrun.symm.trans h
  | first _ h =>
    cases h with
    | @returns done h₁ h₂ => exact { hu with
        thenFn := fun f hf => (by
          rw [show _ = _ from hst] at hf
          cases hf)
        cancelled := fun _ => (by
          cases done with
          | true => exact .inr (h₁ rfl).1
          | false => exact .inl (h₂ rfl)) }
    | asks => exact { hu with
        plain := List.forall_mem_cons.2 ⟨rfl, hu.plain⟩
        thenFn := List.forall_mem_cons.2 ⟨fun h => (by cases h), fun f hf => (by
          rw [show _ = _ from hst] at hf
          cases hf)⟩
        cancelled := fun _ => .inl rfl }

/-- Before the parent is suspended, it is not resumed. -/
theorem resumeParent_of_not (hp : s.parent = false) : s.resumeParent = s := by
  unfold State.resumeParent
  rw [if_neg (by simp [hp])]

theorem Unbegun.thenThrew {executor : Bool} {below : List (Frame Err)} {err : Err} (hu : Unbegun s)
    (hst : s.stack = .thenFn executor :: below) :
    Unbegun { s with stack := below, stage := .exception err, thrown := some err } :=
  { hu.pop hst with }

theorem Unbegun.making {a : Action Err} (hu : Unbegun s) (hp : s.parent = false)
    (hsig : a = .started → s.stage.isFirst = false) (h : Making s a t) : Unbegun t := by
  cases h with
  | constructs hst => exact { hu.pop hst with }
  | ignored => exact { hu with }
  | signals hm hnd hno =>
    have hcan : s.cancelling = false := by
      by_contra h
      rcases hu.cancelled (by simpa using h) with h | h
      · cases hno.symm.trans h
      · cases hnd.symm.trans h
    exact { hu with
      plain := List.forall_mem_cons.2 ⟨by simp [Frame.plain, hsig rfl], hu.plain⟩
      thenFn := List.forall_mem_cons.2 ⟨fun _ => hcan, hu.thenFn⟩ }
  | makes hst => exact hu.made hst
  | makesBegins hst => cases hu.top hst
  | makesCancels hst hcan => cases (hu.thenFn _ (mem_top hst) rfl).symm.trans hcan
  | throwsWaits hst => exact hu.thenThrew hst
  | @throwsLast _ below err hst =>
    rw [resumeParent_of_not (by exact hp)]
    exact hu.thenThrew hst
  | throwsAsks hst => exact (hu.thenThrew hst).ask rfl rfl

theorem Unbegun.answering {a : Action Err} (hu : Unbegun s) (hp : s.parent = false)
    (h : Answering s a t) : Unbegun t := by
  cases h with
  | beginReadies hst => cases hu.top hst
  | beginConfirms hst => cases hu.top hst
  | @refusesDone w _ _ _ _ hst => cases w <;> cases hu.top hst
  | refusesDoCancel hst => exact { hu.pop hst with }
  | refusesThrew hst => exact hu.pop hst
  | @refusesStarted w _ _ _ _ hst => cases w <;> cases hu.top hst
  | @confirmsDone w _ _ _ _ hst => cases w <;> cases hu.top hst
  | confirmsSecond hst => cases hu.top hst
  | confirmsFirst hst => exact { (hu.pop hst).confirmFirst with }
  | confirmsThrew hst =>
    rw [resumeParent_of_not (by exact hp)]
    exact (hu.pop hst).confirmFirst
  | confirmsStarted hst => cases hu.top hst

/-- No stage ends otherwise. -/
theorem Unbegun.not_ending {a : Action Err} (hc : Core s) (hu : Unbegun s) (hp : s.parent = false) :
    ¬ Ending s a t := by
  intro h
  cases h with
  | suspendReturns hst => cases hu.top hst
  | suspendThrows hst => cases hu.top hst
  | suspendFails hst => cases hu.top hst
  | @resumes w _ _ hin =>
    have hrun := (isIn_iff.1 hin).2
    cases w with
    | first => cases hp.symm.trans (hc.parent_of_started (hc.first.running hrun))
    | second => rcases hu.second with h | h <;> cases h.symm.trans hrun
  | mustResumes hst => cases hu.top hst
  | takesResult hst => cases hu.top hst
  | resultThrows hst => cases hu.top hst
  | destroyed hst => cases hu.top hst
  | destroyedThrown hst => cases hu.top hst

/-- The parent is not suspended yet, so it is not cancelled in `await_cancel()`. -/
theorem Core.not_running_of_unparented (hc : Core s) (hp : s.parent = false) :
    s.checker.state ≠ .running := by
  intro hrun
  have hno := hc.waiting hp
  rw [hrun] at hno
  cases hno

theorem Unbegun.change {a : Action Err} (hc : Core s) (hu : Unbegun s) (hp : s.parent = false)
    (hne : a ≠ .awaitSuspend) (hsig : a = .started → s.stage.isFirst = false) (h : Change s a t) :
    Unbegun t := by
  cases h with
  | @answers w => cases w <;> exact { hu with }
  | making h => exact hu.making hp hsig h
  | answering h => exact hu.answering hp h
  | ending h => exact (hu.not_ending hc hp h).elim
  | preparing h =>
    cases h with
    | ready => exact { hu with }
    | cancelsEarly _ hst _ h => exact hu.cancelsEarly hc hst h
    | setsExecutor => exact { hu with }
    | suspends => exact absurd rfl hne
  | performing h =>
    cases h with
    | cancels _ hrun => exact absurd hrun (hc.not_running_of_unparented hp)
    | mustResume => exact { hu with }
    | takes => exact { hu with }
    | destroys => exact { hu with }

end Corral.With
