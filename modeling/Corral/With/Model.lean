import Corral.Lib.Machine
import Corral.Detail.AwaiterStateChecker

/-!
# `with()`: the model

`corral/detail/With.h` on top of `SequenceBase` of `corral/detail/Sequence.h`: one scope with its two
stages, and a parent that follows the awaiter protocol.

The calls that may run other code are frames on a stack: the function that makes the first stage,
`then()`, `await_suspend()`, `await_cancel()`, `await_early_cancel()` and `await_must_resume()` of a
stage, `await_resume()` of the second one, and its destructor.  While one of them is in progress the
first stage may signal readiness, the stages may resume their handles, and the parent may be
cancelled or, if it has been told that the scope is over, destroy it.  What `await_ready()` of a
stage answers is data that may change at any time (`Action.answers`).

* `StageState`: the flags of a stage, and what has become of it;
* `finishes`: how the parent has been told that the scope is over.

Taken to run no code that uses the scope: `await_ready()` and `await_set_executor()` of a stage,
`await_resume()` of the first one, which the parent calls when the scope is over, the destructor of
an exception, and what is destroyed together with the scope.  Resuming the parent's handle does not
run the parent on the spot: what it does from then on are actions of its own, after the step that
has resumed it, and possibly before the calls on the stack return.  The code that is on the stack
when the scope is destroyed goes on with its flags as they were, but neither returns from a stage
that has been destroyed, nor from the destruction of the second one.
-/

namespace Corral.With

open AwaiterStateChecker

inductive Which
  | first
  | second
  deriving DecidableEq

/-- `OtherStage`. -/
def Which.other : Which → Which
  | .first => .second
  | .second => .first

/-- What has become of a stage: it has not been created; it has been; `await_suspend()` has been
called; it has thrown out of `await_suspend()`, and the second stage is being destroyed; it has
resumed its handle, been ready, thrown out of `await_suspend()`, or confirmed its cancellation. -/
inductive Life
  | new
  | idle
  | running
  | threw
  | ended
  deriving DecidableEq

/-- The four flags of a stage; then what they are about: its life, whether its object exists and
whether `await_cancel()` has been called; and what `await_ready()` answers. -/
structure StageState where
  started : Bool
  cancelling : Bool
  done : Bool
  mustNotResume : Bool
  life : Life
  built : Bool
  asked : Bool
  ready : Bool
  deriving DecidableEq

/-- `SequenceBase::Stage`, with the exception. -/
inductive Stage (Err : Type*)
  | none
  | firstStage
  | secondStage
  | exception (err : Err)
  deriving DecidableEq

/-- `inFirstStage()`. -/
def Stage.isFirst {Err : Type*} : Stage Err → Bool
  | .firstStage => true
  | _ => false

/-- `inSecondStage()`. -/
def Stage.isSecond {Err : Type*} : Stage Err → Bool
  | .secondStage => true
  | _ => false

/-- Who calls `cancelStage()`: `onStageDone()` (`both` if `await_suspend()` still has to begin the
second stage), `doCancel()` on behalf of `await_cancel()` or `await_early_cancel()`, or
`markStarted()` after `then()` has thrown or returned. -/
inductive Caller
  | onStageDone (both : Bool)
  | doCancelSecond (early : Bool)
  | doCancelFirst (early afterSecond : Bool)
  | thenThrew
  | markStarted (executor : Bool)
  deriving DecidableEq

/-- The calls in progress. -/
inductive Frame (Err : Type*)
  /-- the function that makes the first stage, in the constructor -/
  | construct
  /-- `then()`, in `markStarted()` -/
  | thenFn (executor : Bool)
  /-- `await_early_cancel()`, in `beginStage()` -/
  | beginEarlyCancel (w : Which) (both : Bool)
  /-- `await_suspend()`, in `beginStage()` -/
  | suspend (w : Which) (both : Bool)
  /-- `await_early_cancel()` or `await_cancel()`, in `cancelStage()` -/
  | cancelStage (w : Which) (early : Bool) (caller : Caller)
  /-- `await_must_resume()`, in `onStageDone()` -/
  | mustResume (w : Which) (both : Bool)
  /-- `await_resume()` of the second stage, in `onStageDone()` -/
  | result (both : Bool)
  /-- `~SecondStageData()`, in `switchTo()` to `stage`, in `onStageDone()` -/
  | destroySecond (stage : Stage Err) (both : Bool)
  /-- `~SecondStageData()`, in `switchTo()`, in the handler of `beginStage()` -/
  | destroyThrown (err : Err) (w : Which) (both : Bool)
  deriving DecidableEq

/-- The parent's handle has been resumed, or a cancellation confirmed. -/
inductive Finish
  | resumed
  | cancelled
  deriving DecidableEq

/-- Why an action has no successor: an assertion fails, the data of a stage is used while it is not
constructed, or the action is not possible in this state. -/
inductive Fault
  | assertion
  | dangling
  | protocol
  deriving DecidableEq

/-- `With`.  `parent` once `parent_` is the parent's handle; `signalled` once the first stage has
signalled readiness; `thrown` is what `then()` has thrown. -/
structure State (Err : Type*) where
  stage : Stage Err
  cancelling : Bool
  hasSecondResult : Bool
  first : StageState
  second : StageState
  parent : Bool
  signalled : Bool
  thrown : Option Err
  checker : Checker
  finishes : List Finish
  stack : List (Frame Err)
  deriving DecidableEq

inductive Action (Err : Type*)
  | firstReturns
  | firstThrows
  | started
  | thenReturns
  | thenThrows (err : Err)
  | answers (w : Which) (ready : Bool)
  | earlyCancelReturns (done : Bool)
  | cancelReturns (done : Bool)
  | suspendReturns
  | suspendThrows (err : Err)
  | resumes (w : Which)
  | mustResumeReturns (must : Bool)
  | resultReturns
  | resultThrows (err : Err)
  | secondDestroyed
  | awaitReady
  | awaitEarlyCancel
  | awaitSetExecutor
  | awaitSuspend
  | awaitCancel
  | awaitMustResume
  | awaitResume
  | destroy
  deriving DecidableEq

variable {Err : Type*}

def StageState.init : StageState := ⟨false, false, false, false, .new, false, false, false⟩

/-- The constructor has been entered. -/
def State.init : State Err :=
  ⟨.none, false, false, .init, .init, false, false, none, .init, [], [.construct]⟩

/-- `isStageRunning()`. -/
def StageState.isRunning (st : StageState) : Bool := st.started && !st.done

def State.get (s : State Err) : Which → StageState
  | .first => s.first
  | .second => s.second

def State.set (s : State Err) : Which → StageState → State Err
  | .first, st => { s with first := st }
  | .second, st => { s with second := st }

def State.enter (s : State Err) (f : Frame Err) : State Err := { s with stack := f :: s.stack }

/-! ### `SequenceBase` -/

/-- The first half of `switchTo()`. -/
def State.leave (s : State Err) : State Err :=
  { s with
    stage := .none
    second := { s.second with built := s.second.built && !s.stage.isSecond } }

/-- `switchTo()`, other than to the second stage, which runs `then()`, or from it, which destroys
it. -/
def State.switchTo (s : State Err) (stage : Stage Err) : State Err := { s.leave with stage := stage }

/-- `~SequenceBase()`. -/
def State.destroy (s : State Err) : Except Fault (State Err) :=
  if s.first.built then .ok { s.leave with first := { s.first with built := false } }
  else .error .dangling

/-- `await_set_executor()`. -/
def State.setExecutor (s : State Err) : Except Fault (State Err) :=
  if s.first.built then
    match s.stage with
    | .secondStage => if s.second.built then .ok s else .error .dangling
    | .none => .ok (s.switchTo .firstStage)
    | _ => .error .assertion
  else .error .dangling

/-! ### `With` -/

/-- `parent_.resume()`. -/
def State.resumeParent (s : State Err) : State Err :=
  if s.parent then { s with
    finishes := s.finishes ++ [.resumed]
    checker := s.checker.resumed.getD s.checker }
  else s

def State.resumeIf (s : State Err) (done : Bool) : State Err := if done then s.resumeParent else s

/-- `await_cancel()` or `await_early_cancel()` returns to the parent. -/
def State.cancelReturned (s : State Err) (early done : Bool) : State Err := { s with
  finishes := if done then s.finishes ++ [.cancelled] else s.finishes
  checker := (if early then s.checker.earlyCancelReturned done
    else s.checker.cancelReturned done).getD s.checker }

/-- `FirstStage::exists()` and `SecondStage::exists()`. -/
def State.exists (s : State Err) : Which → Bool
  | .first => true
  | .second => s.stage.isSecond

/-- `cancelStage()`: what it returns, or nothing yet if the stage is being asked. -/
def State.cancelStage (s : State Err) (w : Which) (caller : Caller) :
    Except Fault (Option Bool × State Err) :=
  let st := s.get w
  if st.cancelling then .ok (some false, s)
  else if s.exists w = false then .ok (some true, s)
  else if st.done then .ok (some true, s)
  else if st.built then
    .ok (none, (s.set w { st with cancelling := true, asked := st.started }).enter
      (.cancelStage w (!st.started) caller))
  else .error .dangling

/-- The stage has ended. -/
def State.finish (s : State Err) (w : Which) : State Err :=
  s.set w { s.get w with done := true, life := .ended }

/-- `onStageDone()` from the other stage on, and `next` after the handle that it returns has been
resumed. -/
def State.joinStages (s : State Err) (w : Which) (both : Bool)
    (next : State Err → Except Fault (State Err)) : Except Fault (State Err) :=
  if (s.get w.other).done then next s.resumeParent
  else (s.cancelStage w.other (.onStageDone both)).bind fun (ret, s) => match ret with
    | some done => next (s.resumeIf done)
    | none => .ok s

/-- `switchTo()` in `onStageDone()`, from the second stage. -/
def State.destroySecond (s : State Err) (stage : Stage Err) (both : Bool) : State Err :=
  s.leave.enter (.destroySecond stage both)

/-- `onStageDone()` once it is known whether the stage is to be resumed: `await_resume()` of the
second stage is called, or it is destroyed. -/
def State.takeResult (s : State Err) (w : Which) (both : Bool)
    (next : State Err → Except Fault (State Err)) : Except Fault (State Err) :=
  if w = .second ∧ s.stage.isSecond then
    if s.second.mustNotResume then .ok (s.destroySecond .none both)
    else .ok (s.enter (.result both))
  else s.joinStages w both next

/-- `onStageDone()`, and `next` after the handle that it returns has been resumed. -/
def State.onStageDone (s : State Err) (w : Which) (both : Bool)
    (next : State Err → Except Fault (State Err)) : Except Fault (State Err) :=
  let s := s.finish w
  let st := s.get w
  if !st.mustNotResume && st.cancelling then
    if st.built then .ok (s.enter (.mustResume w both)) else .error .dangling
  else s.takeResult w both next

/-- `beginStage()` from `await_ready()` on. -/
def State.beginReady (s : State Err) (w : Which) (both : Bool)
    (next : State Err → Except Fault (State Err)) : Except Fault (State Err) :=
  let st := s.get w
  if st.built = false then .error .dangling
  else if st.life ≠ .idle then .error .assertion
  else if st.ready then s.onStageDone w both next
  else .ok ((s.set w { st with started := true, life := .running }).enter (.suspend w both))

/-- `beginStage()`, and `next` after the handle that it returns has been resumed. -/
def State.beginStage (s : State Err) (w : Which) (both : Bool)
    (next : State Err → Except Fault (State Err)) : Except Fault (State Err) :=
  let st := s.get w
  if st.done then next s
  else if s.cancelling && !st.cancelling then
    if st.built then
      .ok ((s.set w { st with cancelling := true }).enter (.beginEarlyCancel w both))
    else .error .dangling
  else s.beginReady w both next

def State.beginSecond (s : State Err) : Except Fault (State Err) := s.beginStage .second false .ok

/-- What `await_suspend()` does after it has begun the first stage. -/
def State.next (both : Bool) (s : State Err) : Except Fault (State Err) :=
  if both then s.beginSecond else .ok s

/-- The handler of `beginStage()`. -/
def State.suspendThrew (s : State Err) (w : Which) (both : Bool) (err : Err) :
    Except Fault (State Err) :=
  if s.stage.isSecond then
    .ok ((s.set w { s.get w with life := .threw }).leave.enter (.destroyThrown err w both))
  else (s.switchTo (.exception err)).onStageDone w both (State.next both)

/-- `doCancel()` once the second stage is out of the way. -/
def State.doCancelFirst (s : State Err) (early afterSecond : Bool) : Except Fault (State Err) :=
  (s.cancelStage .first (.doCancelFirst early afterSecond)).bind fun (ret, s) => match ret with
    | some done =>
      .ok (s.cancelReturned early (done && (afterSecond || !s.second.isRunning)))
    | none => .ok s

/-- `doCancel()`. -/
def State.doCancel (s : State Err) (early : Bool) : Except Fault (State Err) :=
  let s := { s with cancelling := true }
  if s.second.isRunning then
    (s.cancelStage .second (.doCancelSecond early)).bind fun (ret, s) => match ret with
      | some true => s.doCancelFirst early true
      | some false => .ok (s.cancelReturned early false)
      | none => .ok s
  else s.doCancelFirst early false

/-- `markStarted()` up to `then()`. -/
def State.markStarted (s : State Err) : Except Fault (State Err) :=
  if s.first.done then .error .assertion
  else if s.first.cancelling then .ok { s with second := { s.second with done := true } }
  else .ok (s.leave.enter (.thenFn s.stage.isFirst))

/-- The end of `markStarted()`, where `cancelled` says whether the second stage has confirmed a
cancellation. -/
def State.startSecond (s : State Err) (executor cancelled : Bool) : Except Fault (State Err) :=
  if cancelled then s.onStageDone .second false .ok
  else if executor then s.beginSecond
  else .ok s

/-- `then()` has returned. -/
def State.thenReturns (s : State Err) (executor : Bool) : Except Fault (State Err) :=
  let s := { s with
    stage := .secondStage
    second := { s.second with life := .idle, built := true } }
  if s.cancelling then
    (s.cancelStage .second (.markStarted executor)).bind fun (ret, s) => match ret with
      | some done => s.startSecond executor done
      | none => .ok s
  else s.startSecond executor false

/-- `then()` has thrown. -/
def State.thenThrows (s : State Err) (err : Err) : Except Fault (State Err) :=
  ({ s.switchTo (.exception err) with thrown := some err }.cancelStage .first .thenThrew).bind
    fun (ret, s) => match ret with
      | some done => .ok (s.resumeIf done)
      | none => .ok s

/-- The stage has answered, and `cancelStage()` returns to its caller. -/
def State.returnTo (s : State Err) (caller : Caller) (done : Bool) : Except Fault (State Err) :=
  match caller with
  | .onStageDone both => (s.resumeIf done).next both
  | .doCancelSecond early =>
    if done then s.doCancelFirst early true else .ok (s.cancelReturned early false)
  | .doCancelFirst early afterSecond =>
    .ok (s.cancelReturned early (done && (afterSecond || !s.second.isRunning)))
  | .thenThrew => .ok (s.resumeIf done)
  | .markStarted executor => s.startSecond executor done

/-- The stage has answered in `cancelStage()`. -/
def State.stageCancelled (s : State Err) (w : Which) (caller : Caller) (done : Bool) :
    Except Fault (State Err) :=
  if done then
    (s.set w { s.get w with mustNotResume := true, done := true, life := .ended }).returnTo caller
      true
  else s.returnTo caller false

/-- `await_must_resume()`. -/
def State.mustResume (s : State Err) : Bool :=
  match s.stage with
  | .exception _ => true
  | _ => !s.first.mustNotResume || s.hasSecondResult

/-- What `await_resume()` rethrows. -/
def State.rethrows (s : State Err) : Option Err :=
  match s.stage with
  | .exception err => some err
  | _ => none

/-- `await_resume()`, as far as it uses the first stage. -/
def State.awaitResume (s : State Err) : Except Fault (State Err) :=
  if s.rethrows.isNone ∧ s.first.mustNotResume = false ∧ s.first.built = false then
    .error .dangling
  else .ok s

/-! ### The machine -/

/-- The object of the stage exists, and the stage is in the given state. -/
def State.isIn (s : State Err) (w : Which) (life : Life) : Bool :=
  (s.get w).built && (s.get w).life == life

def Frame.isConstruct : Frame Err → Bool
  | .construct => true
  | _ => false

/-- The first stage may signal readiness, once: while it is being made, and until it ends. -/
def State.maySignal (s : State Err) : Bool :=
  !s.signalled &&
    (s.stack.any Frame.isConstruct || s.isIn .first .idle || s.isIn .first .running)

/-- The parent has made a call, and the checker is in the state `c` now. -/
def State.check (s : State Err) (c : Option Checker) : Except Fault (State Err) :=
  match c with
  | some c => .ok { s with checker := c }
  | none => .error .protocol

/-- What the stages do. -/
def State.internal (s : State Err) : Action Err → Except Fault (State Err)
  | .firstReturns => match s.stack with
    | .construct :: below =>
      .ok { s with stack := below, first := { s.first with life := .idle, built := true } }
    | _ => .error .protocol
  | .firstThrows => match s.stack with
    | .construct :: below => { s with stack := below }.destroy
    | _ => .error .protocol
  | .started => if s.maySignal then { s with signalled := true }.markStarted else .error .protocol
  | .thenReturns => match s.stack with
    | .thenFn executor :: below => { s with stack := below }.thenReturns executor
    | _ => .error .protocol
  | .thenThrows err => match s.stack with
    | .thenFn _ :: below => { s with stack := below }.thenThrows err
    | _ => .error .protocol
  | .answers w ready => .ok (s.set w { s.get w with ready := ready })
  | .earlyCancelReturns done => match s.stack with
    | .beginEarlyCancel w both :: below =>
      if done = false then { s with stack := below }.beginReady w both (State.next both)
      else if s.isIn w .idle then
        ({ s with stack := below }.set w { s.get w with mustNotResume := true }).onStageDone w both
          (State.next both)
      else .error .protocol
    | .cancelStage w true caller :: below =>
      if done = false ∨ s.isIn w .idle then { s with stack := below }.stageCancelled w caller done
      else .error .protocol
    | _ => .error .protocol
  | .cancelReturns done => match s.stack with
    | .cancelStage w false caller :: below =>
      if done = false ∨ s.isIn w .running then
        { s with stack := below }.stageCancelled w caller done
      else .error .protocol
    | _ => .error .protocol
  | .suspendReturns => match s.stack with
    | .suspend _ both :: below => { s with stack := below }.next both
    | _ => .error .protocol
  | .suspendThrows err => match s.stack with
    | .suspend w both :: below =>
      if s.isIn w .running then { s with stack := below }.suspendThrew w both err
      else .error .protocol
    | _ => .error .protocol
  | .resumes w =>
    if s.isIn w .running then s.onStageDone w false .ok else .error .protocol
  | .mustResumeReturns must => match s.stack with
    | .mustResume w both :: below =>
      let st := s.get w
      if st.built then
        ({ s with stack := below }.set w
          { st with mustNotResume := st.mustNotResume || !must }).takeResult w both
            (State.next both)
      else .error .dangling
    | _ => .error .protocol
  | .resultReturns => match s.stack with
    | .result both :: below =>
      if s.stage.isSecond then
        .ok ({ s with stack := below, hasSecondResult := true }.destroySecond .none both)
      else .error .dangling
    | _ => .error .protocol
  | .resultThrows err => match s.stack with
    | .result both :: below =>
      if s.stage.isSecond then
        .ok ({ s with stack := below }.destroySecond (.exception err) both)
      else .error .dangling
    | _ => .error .protocol
  | .secondDestroyed => match s.stack with
    | .destroySecond stage both :: below =>
      if s.first.built then
        { s with stack := below, stage := stage }.joinStages .second both (State.next both)
      else .error .dangling
    | .destroyThrown err w both :: below =>
      if s.first.built then
        { s with stack := below, stage := .exception err }.onStageDone w both (State.next both)
      else .error .dangling
    | _ => .error .protocol
  | _ => .error .protocol

/-- What the parent does before it is suspended, one call after the other. -/
def State.prepare (s : State Err) : Action Err → Except Fault (State Err)
  | .awaitReady => s.check (s.checker.readyReturned (s.first.done && s.second.done))
  | .awaitEarlyCancel =>
    if (s.checker.earlyCancelReturned true).isSome then s.doCancel true else .error .protocol
  | .awaitSetExecutor =>
    if s.checker.hasExecutor then .error .protocol
    else (s.check s.checker.aboutToSetExecutor).bind State.setExecutor
  | .awaitSuspend => (s.check s.checker.aboutToSuspend).bind fun s =>
      let s := { s with parent := true }
      let both := s.exists .second
      s.beginStage .first both (State.next both)
  | _ => .error .protocol

/-- What the parent does, or has done to it, from then on. -/
def State.perform (s : State Err) : Action Err → Except Fault (State Err)
  | .awaitCancel => (s.check s.checker.aboutToCancel).bind fun s => s.doCancel false
  | .awaitMustResume =>
    if s.exists .second then .error .assertion
    else s.check (s.checker.mustResumeReturned s.mustResume)
  | .awaitResume => (s.check s.checker.aboutToResume).bind State.awaitResume
  | .destroy =>
    if s.checker.mayReset ∧ (s.checker.state = .initial → s.stack = []) then s.destroy
    else .error .protocol
  | _ => .error .protocol

/-- Who takes an action: the stages; the parent before it is suspended; the parent afterwards. -/
inductive Agent
  | stages
  | preparing
  | parent
  deriving DecidableEq

def Action.agent : Action Err → Agent
  | .awaitReady => .preparing
  | .awaitEarlyCancel => .preparing
  | .awaitSetExecutor => .preparing
  | .awaitSuspend => .preparing
  | .awaitCancel => .parent
  | .awaitMustResume => .parent
  | .awaitResume => .parent
  | .destroy => .parent
  | _ => .stages

/-- One action.  The parent uses the scope only while it exists, that is, from when the first stage
has been made until it is destroyed. -/
def step (s : State Err) (a : Action Err) : Except Fault (State Err) :=
  match a.agent with
  | .stages => s.internal a
  | .preparing => if s.first.built ∧ s.stack = [] then s.prepare a else .error .protocol
  | .parent => if s.first.built then s.perform a else .error .protocol

end Corral.With
