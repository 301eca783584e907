import Corral.Lib.Lockstep
import Corral.Sequence.Calls
import Corral.Sequence.Coroutine

/-!
# `Sequence` does what the coroutine does

* `Agree`: the places at which the combinator and the coroutine stand together;
* `agree_step`: every action leads from one such place to another;
* `sequence_eq_coroutine`: in every run in which `await_suspend()` of the second awaiter does not
  throw, the calls and the outcome are those of the coroutine.
-/

namespace Corral.Sequence

open ActionMachine

variable {V W E : Type*} {first : Awaiter V E} {fn : V → Except E (Awaiter W E)}

/-- The same place of the combinator and of the coroutine; `k` says that the task has been asked to
cancel, and `l` is what has happened. -/
inductive Agree : State V W E → Coroutine.State V W E → Prop
  | initial : Agree .init .init
  | first (k : Bool) (p : Pause) (l : List (Event V W E)) :
      (∀ entering, p = .cancelling entering → k = true) → Agree ⟨.firstStage, k, k, some p, none, true, false, l⟩
        ⟨.first, false, k, k, some p, true, l⟩
  | fn (x : V) (k after : Bool) (l : List (Event V W E)) :
      Agree ⟨.none, k, k, none, some x, true, false, l⟩ ⟨.fn x, k, after, k, none, true, l⟩
  | second (a : Awaiter W E) (k : Bool) (p : Pause) (l : List (Event V W E)) :
      (∀ entering, p = .cancelling entering → k = true) → Agree ⟨.secondStage a, k, k, some p, none, true, false, l⟩
        ⟨.second a, false, k, k, some p, true, l⟩
  | done (stage : Stage W E) (k k' requested after : Bool) (r : Result W E)
      (l : List (Event V W E)) : Agree ⟨stage, k, k', none, none, true, false, l⟩
        ⟨.done r, requested, after, k, none, true, l⟩

/-- `await_suspend()` of the second awaiter does not throw. -/
def SecondSuspends (s : State V W E) (a : Action E) : Prop :=
  ∀ b, s.stage = .secondStage b → ∀ e, a ≠ .suspendThrows e

/-! ### The parts of a step -/

/-- After the first awaiter: `await_resume()`, up to the call of `fn`. -/
theorem agree_finishFirst (k after : Bool) (l : List (Event V W E)) :
    Matches Agree .protocol
      (State.finishFirst first ⟨.firstStage, k, k, none, none, true, false, l⟩)
      (Coroutine.State.doResume first ⟨.first, k, after, k, none, true, l⟩) := by
  unfold State.finishFirst Coroutine.State.doResume
  cases hr : first.result with
  | ok x =>
    exact .ok (.fn x k after _)
  | error e =>
    cases k with
    | false => exact .ok (.done _ _ _ _ _ _ _)
    | true => exact .ok (.done _ _ _ _ _ _ _)

/-- The first awaiter has resumed the handle, or has been ready. -/
theorem agree_kickOffSecond (k after : Bool) (l : List (Event V W E)) :
    Matches Agree .protocol
      (State.kickOffSecond first ⟨.firstStage, k, k, none, none, true, false, l⟩)
      (if k then Coroutine.State.doResumeAfterCancel first
          ⟨.first, false, after, k, none, true, l⟩ .first first.toAnswers
        else Coroutine.State.doResume first ⟨.first, false, after, k, none, true, l⟩) := by
  cases k with
  | false => exact agree_finishFirst false after l
  | true =>
    simp only [State.kickOffSecond, Coroutine.State.doResumeAfterCancel, if_true]
    cases hm : first.mustResume with
    | true => exact agree_finishFirst true after _
    | false => exact .ok (.done _ _ _ _ _ _ _)

/-- The second awaiter has resumed the handle, or has been ready. -/
theorem agree_resumeParent (a : Awaiter W E) (k after : Bool) (l : List (Event V W E)) :
    Matches Agree .protocol
      (State.resumeParent ⟨.secondStage a, k, k, none, none, true, false, l⟩)
      (if k then Coroutine.State.doResumeAfterCancel first
          ⟨.second a, false, after, k, none, true, l⟩ .second a.toAnswers
        else Coroutine.State.doResume first ⟨.second a, false, after, k, none, true, l⟩) := by
  cases k with
  | false =>
    simp only [State.resumeParent, State.awaitResume, Coroutine.State.doResume]
    cases hr : a.result with
    | ok w => exact .ok (.done _ _ _ _ _ _ _)
    | error e => exact .ok (.done _ _ _ _ _ _ _)
  | true =>
    obtain ⟨⟨early, ready, must⟩, result⟩ := a
    cases must with
    | false => exact .ok (.done _ _ _ _ _ _ _)
    | true =>
      cases result with
      | ok w => exact .ok (.done _ _ _ _ _ _ _)
      | error e => exact .ok (.done _ _ _ _ _ _ _)

/-- `fn` has come back. -/
theorem agree_fnReturns (x : V) (k after : Bool) (l : List (Event V W E)) :
    Matches Agree .protocol
      (State.fnReturns fn ⟨.none, k, k, none, some x, true, false, l⟩ x)
      (Coroutine.State.fnReturns first fn ⟨.fn x, k, after, k, none, true, l⟩ x) := by
  simp only [State.fnReturns, Coroutine.State.fnReturns]
  cases hf : fn x with
  | error e =>
    cases k with
    | false => exact .ok (.done _ _ _ _ _ _ _)
    | true => exact .ok (.done _ _ _ _ _ _ _)
  | ok a =>
    have hresume := @agree_resumeParent V W E first a
    obtain ⟨⟨early, ready, must⟩, result⟩ := a
    cases k with
    | false =>
      cases ready with
      | true => exact hresume false after _
      | false => exact .ok (.second _ false _ _ fun entering h => by cases h)
    | true =>
      cases early with
      | true => exact .ok (.done _ _ _ _ _ _ _)
      | false =>
        cases ready with
        | true => exact hresume true true _
        | false => exact .ok (.second _ true _ _ fun entering h => rfl)

/-- The task begins its co_await. -/
theorem agree_start (early : Bool) :
    Matches Agree .protocol
      (State.hookAwaitSuspend first (W := W) { State.init with started := true } early)
      (Coroutine.State.start first .init early) := by
  have hkick := @agree_kickOffSecond V W E first
  obtain ⟨⟨earlyCancel, ready, must⟩, result⟩ := first
  cases early with
  | false =>
    cases ready with
    | true => exact hkick false false _
    | false => exact .ok (.first false _ _ fun entering h => by cases h)
  | true =>
    cases earlyCancel with
    | true => exact .ok (.done _ _ _ _ _ _ _)
    | false =>
      cases ready with
      | true => exact hkick true true _
      | false => exact .ok (.first true _ _ fun entering h => rfl)

/-! ### The steps -/

theorem agree_step_first {k : Bool} {p : Pause} {l : List (Event V W E)}
    (hk : ∀ entering, p = .cancelling entering → k = true) (a : Action E) :
    Matches Agree .protocol (step first fn ⟨.firstStage, k, k, some p, none, true, false, l⟩ a)
      (Coroutine.step first fn ⟨.first, false, k, k, some p, true, l⟩ a) := by
  cases a with
  | start early => exact .error
  | fnReturns => exact .error
  | resumes =>
    have h := @agree_kickOffSecond V W E first k k l
    cases k with
    | true => exact h
    | false => exact h
  | suspendReturns =>
    cases p with
    | cancelling entering => exact .error
    | suspended entering =>
      cases entering with
      | true => exact .ok (.first k _ l fun entering h => by cases h)
      | false => exact .error
  | suspendThrows e =>
    cases p with
    | cancelling entering => exact .error
    | suspended entering =>
      cases entering with
      | true => exact .ok (.done _ _ _ _ _ _ _)
      | false => exact .error
  | cancel =>
    cases k with
    | true => exact .error
    | false =>
      cases p with
      | suspended entering => exact .ok (.first true _ _ fun entering h => rfl)
      | cancelling entering => cases hk entering rfl
  | cancelReturns done =>
    cases p with
    | suspended entering => exact .error
    | cancelling entering =>
      cases hk entering rfl
      cases done with
      | true => exact .ok (.done _ _ _ _ _ _ _)
      | false => exact .ok (.first true _ l fun entering h => rfl)

theorem agree_step_fn (x : V) (k after : Bool) (l : List (Event V W E)) (a : Action E) :
    Matches Agree .protocol (step first fn ⟨.none, k, k, none, some x, true, false, l⟩ a)
      (Coroutine.step first fn ⟨.fn x, k, after, k, none, true, l⟩ a) := by
  cases a with
  | fnReturns => exact agree_fnReturns x k after l
  | cancel =>
    cases k with
    | true => exact .error
    | false => exact .ok (.fn x true after _)
  | _ => exact .error

theorem agree_step_second {b : Awaiter W E} {k : Bool} {p : Pause} {l : List (Event V W E)}
    (hk : ∀ entering, p = .cancelling entering → k = true) {a : Action E}
    (ha : ∀ e, a ≠ .suspendThrows e) :
    Matches Agree .protocol (step first fn ⟨.secondStage b, k, k, some p, none, true, false, l⟩ a)
      (Coroutine.step first fn ⟨.second b, false, k, k, some p, true, l⟩ a) := by
  cases a with
  | start early => exact .error
  | fnReturns => exact .error
  | suspendThrows e => exact absurd rfl (ha e)
  | resumes =>
    have h := @agree_resumeParent V W E first b k k l
    cases k with
    | true => exact h
    | false => exact h
  | suspendReturns =>
    cases p with
    | cancelling entering => exact .error
    | suspended entering =>
      cases entering with
      | true => exact .ok (.second b k _ l fun entering h => by cases h)
      | false => exact .error
  | cancel =>
    cases k with
    | true => exact .error
    | false =>
      cases p with
      | suspended entering => exact .ok (.second b true _ _ fun entering h => rfl)
      | cancelling entering => cases hk entering rfl
  | cancelReturns done =>
    cases p with
    | suspended entering => exact .error
    | cancelling entering =>
      cases hk entering rfl
      cases done with
      | true => exact .ok (.done _ _ _ _ _ _ _)
      | false => exact .ok (.second b true _ l fun entering h => rfl)

theorem agree_step_done (stage : Stage W E) (k k' requested after : Bool) (r : Result W E)
    (l : List (Event V W E)) (a : Action E) :
    Matches Agree .protocol (step first fn ⟨stage, k, k', none, none, true, false, l⟩ a)
      (Coroutine.step first fn ⟨.done r, requested, after, k, none, true, l⟩ a) := by
  cases a with
  | cancel =>
    cases k with
    | true => exact .error
    | false => exact .error
  | _ => exact .error

theorem agree_step {s : State V W E} {c : Coroutine.State V W E} {a : Action E} (h : Agree s c)
    (ha : SecondSuspends s a) : Matches Agree .protocol (step first fn s a) (Coroutine.step first fn c a) := by
  cases h with
  | initial =>
    cases a with
    | start early => exact agree_start early
    | _ => exact .error
  | first k p l hk => exact agree_step_first hk a
  | fn x k after l => exact agree_step_fn x k after l a
  | second b k p l hk => exact agree_step_second hk (ha b rfl)
  | done stage k k' requested after r l => exact agree_step_done stage k k' requested after r l a

/-! ### The two together -/

/-- If `await_suspend()` of the second awaiter does not throw, a run of the combinator is a run of the
coroutine, and the other way round, with the same calls in the same order and the same outcome.  `fn`
is called at most once, with the value of the first awaiter. -/
theorem sequence_eq_coroutine (first : Awaiter V E) (fn : V → Except E (Awaiter W E))
    {l : List (Action E)} (hl : Meets (step first fn) SecondSuspends .init l) :
    Matches (fun s c => s.log = c.log) .protocol (exec (step first fn) .init l)
        (exec (Coroutine.step first fn) .init l) ∧
      ∀ s, exec (step first fn) .init l = .ok s →
        s.log.countP Event.isFn ≤ 1 ∧ ∀ x, .fn x ∈ s.log → .resumedFirst (.ok x) ∈ s.log := by
  refine ⟨?_, fun s hs => calls_of_reach (reach_of_run hs)⟩
  have h := exec_matches (fun s c a => agree_step) Agree.initial hl
  refine h.mono fun s c hsc => ?_
  cases hsc with
  | initial => rfl
  | first k p l hk => rfl
  | fn x k after l => rfl
  | second b k p l hk => rfl
  | done stage k k' requested after r l => rfl

/-- The task is cancelled while the first awaiter is suspended, which refuses; so `fn` is called, and
the second awaiter is cancelled before it begins. -/
theorem sequence_eq_coroutine_refused :
    Matches (fun (s : State ℕ ℕ ℕ) c => s.log = c.log) .protocol
      (exec (step ⟨⟨false, false, true⟩, .ok 0⟩ fun _ => .ok ⟨⟨true, false, true⟩, .ok 1⟩) .init
        [.start false, .cancel, .cancelReturns false, .resumes, .fnReturns])
      (exec (Coroutine.step ⟨⟨false, false, true⟩, .ok 0⟩ fun _ => .ok ⟨⟨true, false, true⟩, .ok 1⟩)
        .init [.start false, .cancel, .cancelReturns false, .resumes, .fnReturns]) := by
  refine (sequence_eq_coroutine _ _ (meets_of_forall (fun a ha s b _ e => ?_) State.init)).1
  rintro rfl
  simp at ha

end Corral.Sequence
