import Corral.Lib.Machine
import Corral.Promise.Model

/-!
# `Sequence`: the model

`corral/detail/Sequence.h`: a task in `co_await (first | then(fn))`, from the beginning of the
co_await to its outcome, with the functions of `corral/detail/Promise.h` through which the task uses
the combinator.

The calls that may run other code are `await_suspend()` and `await_cancel()` of the two awaiters, and
`fn`.  While one of them is in progress, and while an awaiter is suspended, the task may be cancelled
and the awaiter may resume its handle.  A task whose handle has been resumed is scheduled; its next
step is taken at once here, since in between nothing else happens to the two awaiters.

* `Awaiter`: what an awaiter answers, each question being asked at most once;
* `Event`: the calls of the awaiters and of `fn`, the request to cancel, and the outcome.
-/

namespace Corral.Sequence

inductive Which
  | first
  | second
  deriving DecidableEq

/-- What an awaiter answers, and what its `await_resume()` yields. -/
structure Awaiter (V E : Type*) extends BasePromise.Answers where
  result : Except E V

/-- How the co_await ends. -/
inductive Result (W E : Type*)
  | value (w : W)
  | threw (e : E)
  | cancelled
  deriving DecidableEq

inductive Event (V W E : Type*)
  | earlyCancel (i : Which) (done : Bool)
  | ready (i : Which) (val : Bool)
  | suspend (i : Which)
  | suspendThrew (i : Which) (e : E)
  | cancel (i : Which)
  | mustResume (i : Which) (val : Bool)
  /-- `await_resume()` of the first awaiter has returned or thrown -/
  | resumedFirst (r : Except E V)
  | resumedSecond (r : Except E W)
  /-- `fn` is called -/
  | fn (x : V)
  /-- `fn`, or the constructor of the second awaiter, has thrown -/
  | fnThrew (e : E)
  /-- the task is asked to cancel after the co_await has begun -/
  | requested
  | outcome (r : Result W E)
  /-- `std::terminate()` -/
  | terminated
  deriving DecidableEq

/-- The awaiter on which the execution is suspended.  `entering`: its `await_suspend()` has not
returned yet. -/
inductive Pause
  | suspended (entering : Bool)
  /-- `await_cancel()` is in progress -/
  | cancelling (entering : Bool)
  deriving DecidableEq

inductive Action (E : Type*)
  /-- the task begins the co_await; `early` says that its cancellation is pending -/
  | start (early : Bool)
  | suspendReturns
  | suspendThrows (e : E)
  /-- the awaiter resumes its handle -/
  | resumes
  | cancel
  | cancelReturns (done : Bool)
  | fnReturns

/-- Why an action has no successor: an assertion fails, or the action is not possible here. -/
inductive Fault
  | assertion
  | protocol
  deriving DecidableEq

/-- `SequenceBase::Stage`, with the data of the stage. -/
inductive Stage (W E : Type*)
  | none
  | firstStage
  | secondStage (a : Awaiter W E)
  | exception (e : E)

/-- The combinator and the task.  `cancelling` is the bit of `flags_`; `afterCancel` says that the
handle of the task runs `doResumeAfterCancel()`; `calling` is the argument of `fn` while it is in
progress. -/
structure State (V W E : Type*) where
  stage : Stage W E
  cancelling : Bool
  afterCancel : Bool
  pause : Option Pause
  calling : Option V
  started : Bool
  terminated : Bool
  log : List (Event V W E)

variable {V W E : Type*}

def State.init : State V W E := ⟨.none, false, false, none, none, false, false, []⟩

def State.record (s : State V W E) (ev : Event V W E) : State V W E :=
  { s with log := s.log ++ [ev] }

/-- The awaiter suspends. -/
def State.suspend (s : State V W E) (i : Which) : State V W E :=
  { s with pause := some (.suspended true) }.record (.suspend i)

/-! ### The functions that the task uses -/

/-- `await_must_resume()`. -/
def State.mustResume (s : State V W E) : Bool × State V W E :=
  match s.stage with
  | .exception _ => (true, s)
  | .secondStage a =>
    let s := s.record (.mustResume .second a.mustResume)
    -- the second stage is destroyed unless its result is needed
    (a.mustResume, if a.mustResume then s else { s with stage := .none })
  | _ => (false, s)

/-- `await_resume()`, and what the co_await yields. -/
def State.awaitResume (s : State V W E) : Except Fault (State V W E) :=
  match s.stage with
  | .exception e => .ok ({ s with stage := .none }.record (.outcome (.threw e)))
  | .secondStage a =>
    let s := { s with stage := .none }.record (.resumedSecond a.result)
    match a.result with
    | .ok w => .ok (s.record (.outcome (.value w)))
    | .error e => .ok (s.record (.outcome (.threw e)))
  | _ => .error .assertion

/-- `parent_.resume()`: `doResume()` or `doResumeAfterCancel()` of the task. -/
def State.resumeParent (s : State V W E) : Except Fault (State V W E) :=
  if s.afterCancel then
    let (must, s) := s.mustResume
    if must then s.awaitResume else .ok (s.record (.outcome .cancelled))
  else s.awaitResume

section Code

variable (first : Awaiter V E) (fn : V → Except E (Awaiter W E))

/-! ### `kickOffSecond()` -/

/-- The call of `first_.awaiter.await_resume()`, up to the call of `fn`. -/
def State.finishFirst (s : State V W E) : Except Fault (State V W E) :=
  match s.stage with
  | .firstStage =>
    let s := s.record (.resumedFirst first.result)
    match first.result with
    | .ok x => .ok ({ s with stage := .none, calling := some x }.record (.fn x))
    | .error e => { s with stage := .exception e }.resumeParent
  | _ => .error .assertion

/-- `kickOffSecond()`, up to the call of `fn`. -/
def State.kickOffSecond (s : State V W E) : Except Fault (State V W E) :=
  if s.cancelling then
    let s := s.record (.mustResume .first first.mustResume)
    if first.mustResume then s.finishFirst first else s.resumeParent
  else s.finishFirst first

/-- `kickOffSecond()`, from `await_ready()` of the second awaiter on. -/
def State.beginSecond (s : State V W E) (a : Awaiter W E) : Except Fault (State V W E) :=
  let s := s.record (.ready .second a.ready)
  if a.ready then s.resumeParent else .ok (s.suspend .second)

/-- `kickOffSecond()` after `fn` and the constructor of the second awaiter. -/
def State.fnReturns (s : State V W E) (x : V) : Except Fault (State V W E) :=
  let s := { s with calling := none }
  match fn x with
  | .error e => { s.record (.fnThrew e) with stage := .exception e }.resumeParent
  | .ok a =>
    let s := { s with stage := .secondStage a }
    if s.cancelling then
      let s := s.record (.earlyCancel .second a.earlyCancel)
      if a.earlyCancel then { s with stage := .none }.resumeParent else s.beginSecond a
    else s.beginSecond a

/-! ### The calls of the task -/

/-- `await_set_executor()`. -/
def State.setExecutor (s : State V W E) : Except Fault (State V W E) :=
  match s.stage with
  | .secondStage _ => .ok s
  | .none => .ok { s with stage := .firstStage }
  | _ => .error .assertion

/-- `await_suspend()`. -/
def State.awaitSuspend (s : State V W E) : Except Fault (State V W E) :=
  let s := s.record (.ready .first first.ready)
  if first.ready then s.kickOffSecond first else .ok (s.suspend .first)

/-- `await_early_cancel()`. -/
def State.awaitEarlyCancel (s : State V W E) : Bool × State V W E :=
  (first.earlyCancel, { s with cancelling := true }.record (.earlyCancel .first first.earlyCancel))

/-- `hookAwaitSuspend()` of the task; `await_ready()` of the combinator is false. -/
def State.hookAwaitSuspend (s : State V W E) (cancelRequested : Bool) :
    Except Fault (State V W E) :=
  if cancelRequested then
    let (done, s) := s.awaitEarlyCancel first
    if done then .ok (s.record (.outcome .cancelled))
    else ({ s with afterCancel := true }.setExecutor).bind (·.awaitSuspend first)
  else s.setExecutor.bind (·.awaitSuspend first)

/-- `await_cancel()`: whether the awaiter of the stage is asked. -/
def State.awaitCancel (s : State V W E) (entering : Bool) : State V W E :=
  let s := { s with cancelling := true }
  match s.stage with
  | .firstStage => { s with pause := some (.cancelling entering) }.record (.cancel .first)
  | .secondStage _ => { s with pause := some (.cancelling entering) }.record (.cancel .second)
  | _ => s

/-- `cancel()` of the task. -/
def State.cancel (s : State V W E) : Except Fault (State V W E) :=
  let s' := { s with afterCancel := true }.record .requested
  match s.pause, s.calling with
  | some (.suspended entering), _ => .ok (s'.awaitCancel entering)
  | none, some _ => .ok (s'.awaitCancel false)
  | _, _ => .error .protocol

/-! ### The machine -/

/-- `await_suspend()` of an awaiter throws. -/
def State.suspendThrows (s : State V W E) (e : E) : Except Fault (State V W E) :=
  let s := { s with pause := none }
  match s.stage with
  | .firstStage => .ok ((s.record (.suspendThrew .first e)).record (.outcome (.threw e)))
  -- `kickOffSecond()` is `noexcept`
  | .secondStage _ =>
    .ok ({ s with terminated := true }.record (.suspendThrew .second e) |>.record .terminated)
  | _ => .error .protocol

/-- The awaiter resumes its handle: the one of the combinator, or the one of the task. -/
def State.resumes (s : State V W E) : Except Fault (State V W E) :=
  let s := { s with pause := none }
  match s.stage with
  | .firstStage => s.kickOffSecond first
  | _ => s.resumeParent

/-- One action. -/
def step (s : State V W E) : Action E → Except Fault (State V W E)
  | .start early =>
    if s.started then .error .protocol else { s with started := true }.hookAwaitSuspend first early
  | .suspendReturns => match s.pause with
    | some (.suspended true) => .ok { s with pause := some (.suspended false) }
    | _ => .error .protocol
  | .suspendThrows e => match s.pause with
    | some (.suspended true) => s.suspendThrows e
    | _ => .error .protocol
  | .resumes => match s.pause with
    | some _ => s.resumes first
    | none => .error .protocol
  | .cancel => if s.cancelling then .error .protocol else s.cancel
  | .cancelReturns done => match s.pause with
    | some (.cancelling entering) =>
      -- `propagateCancel()` of the task
      if done then .ok ({ s with pause := none }.record (.outcome .cancelled))
      else .ok { s with pause := some (.suspended entering) }
    | _ => .error .protocol
  | .fnReturns => match s.calling with
    | some x => s.fnReturns fn x
    | none => .error .protocol

end Code

end Corral.Sequence
