import Corral.Lib.Machine
import Corral.Detail.AwaiterStateChecker

/-!
# `BasePromise`: the model

`corral/detail/Promise.h`: one task from its creation to the `continuation()` of its parent.

The task awaits one awaiter after the other.  What an awaiter answers comes with the actions, and
every call of one of its functions goes through its `AwaiterStateChecker`, as it does in
`SanitizedAwaiter`.  The functions that may run other code, `await_suspend()` and `await_cancel()`,
are frames on a stack; while they are in progress anything may happen, the cancellation of the task
and its resumption included.

`state_` and `cancelState_` share their storage with the awaiter: a task that is suspended has no
`cancelState_`, and when the awaiter has been replaced by `state_` there is still a pointer in its
place, which is not `CancelState::Requested`.
-/

namespace Corral.BasePromise

open AwaiterStateChecker

/-- `BasePromise::state_`, or that the task has an awaiter. -/
inductive Status
  | ready
  | running
  | suspended
  deriving DecidableEq

/-- `CoroutineFrame::resumeFn`. -/
inductive Trampoline
  | doNothing
  | doResume
  | doResumeAfterCancel
  deriving DecidableEq

/-- The body of the coroutine: whether it has stored its result, and reached its final suspension. -/
inductive Body
  | active
  | returned
  | over
  deriving DecidableEq

/-- What the awaiter of a co_await answers: `await_early_cancel()`, `await_ready()`, and
`await_must_resume()` if it is asked at once. -/
structure Answers where
  earlyCancel : Bool
  ready : Bool
  mustResume : Bool
  deriving DecidableEq

/-- The calls in progress, for the awaiter of the `k`-th co_await. -/
inductive Frame
  /-- `await_suspend()`, with the `cancelRequested` of `hookAwaitSuspend()` -/
  | awaitSuspend (k : ℕ) (cancelRequested : Bool)
  /-- `await_cancel()` -/
  | awaitCancel (k : ℕ)
  deriving DecidableEq

/-- What happens to the coroutine, to its awaiters and to the parent of the task. -/
inductive Event
  /-- the body suspends in a co_await -/
  | suspended
  /-- the body is resumed -/
  | resumed
  /-- `await_early_cancel()` of an awaiter is called, and returns `done` -/
  | askedEarly (done : Bool)
  /-- `storeValue()` or `storeException()` of the parent -/
  | stored (exception : Bool)
  /-- `cancelled()` of the parent -/
  | cancelled
  /-- `continuation()` of the parent -/
  | continuation
  deriving DecidableEq

/-- Why an action has no successor: the task makes a call that it must not make, or whoever acts
does not follow the protocol. -/
inductive Fault
  | assertion
  | protocol
  deriving DecidableEq

/-- A task.  `checker` belongs to the awaiter, while there is one; `awaits` counts the co_await
expressions; `queued` are the resumptions of the body that wait in the executor; `asked`: `cancel()`
has been called. -/
structure State where
  started : Bool
  launched : Bool
  parent : Bool
  status : Status
  cancelRequested : Bool
  onResume : Trampoline
  checker : Option Checker
  awaits : ℕ
  queued : ℕ
  stack : List Frame
  body : Body
  asked : Bool
  log : List Event

inductive Action
  | start
  | launch
  | cancel
  | run
  | coAwait (ans : Answers)
  | suspendReturns
  | suspendThrows
  | resume (mustResume : Bool)
  | cancelReturns (done : Bool)
  | store (exception : Bool)
  | finalSuspend

/-- A task that has just been created: it is suspended, but has no awaiter. -/
def State.init : State :=
  ⟨false, false, false, .ready, false, .doNothing, none, 0, 0, [], .active, false, []⟩

def State.record (s : State) (ev : Event) : State := { s with log := s.log ++ [ev] }

/-- A call goes through the checker of the awaiter. -/
def State.check (s : State) (f : Checker → Option Checker) (e : Fault) : Except Fault State :=
  match s.checker.bind f with
  | some c => .ok { s with checker := some c }
  | none => .error e

/-- `doResume()`. -/
def State.doResume (s : State) : State :=
  { s with status := .ready, onResume := .doNothing, queued := s.queued + 1 }

/-- `propagateCancel()`. -/
def State.propagateCancel (s : State) : Except Fault State :=
  if s.parent then .ok (({ s with parent := false }.record .cancelled).record .continuation)
  else .error .assertion

/-- `doResumeAfterCancel()`. -/
def State.doResumeAfterCancel (s : State) (mustResume : Bool) : Except Fault State :=
  if s.status = .suspended then
    (s.check (·.mustResumeReturned mustResume) .assertion).bind fun s =>
      if mustResume then .ok { s with cancelRequested := true }.doResume else s.propagateCancel
  else s.propagateCancel

/-- The handle of the task is resumed. -/
def State.trampoline (s : State) (mustResume : Bool) : Except Fault State :=
  match s.onResume with
  | .doNothing => .ok s
  | .doResume => .ok s.doResume
  | .doResumeAfterCancel => s.doResumeAfterCancel mustResume

/-- The end of `hookAwaitSuspend()`, up to the `await_suspend()` of the awaiter. -/
def State.enterAwaitSuspend (s : State) (cancelRequested : Bool) : Except Fault State :=
  (s.check Checker.aboutToSetExecutor .assertion).bind fun s =>
    (s.check Checker.aboutToSuspend .assertion).bind fun s =>
      .ok { s with stack := .awaitSuspend s.awaits cancelRequested :: s.stack }

/-- `hookAwaitSuspend()`. -/
def State.hookAwaitSuspend (s : State) (ans : Answers) : Except Fault State :=
  let s' := { s with status := .suspended, cancelRequested := false }.record .suspended
  if s.cancelRequested then
    ((s'.record (.askedEarly ans.earlyCancel)).check (·.earlyCancelReturned ans.earlyCancel)
        .assertion).bind fun s =>
      if ans.earlyCancel then s.propagateCancel
      else
        ({ s with onResume := .doResumeAfterCancel }.check (·.readyReturned ans.ready)
            .assertion).bind fun s =>
          -- the handle of the task is returned, and resumed at once
          if ans.ready then s.trampoline ans.mustResume else s.enterAwaitSuspend true
  else { s' with onResume := .doResume }.enterAwaitSuspend false

/-- The body awaits something, through an `AwaitProxy`. -/
def State.coAwait (s : State) (ans : Answers) : Except Fault State :=
  let s' := { s with checker := some .init, awaits := s.awaits + 1 }
  if s.cancelRequested then s'.hookAwaitSuspend ans
  else (s'.check (·.readyReturned ans.ready) .assertion).bind fun s =>
    if ans.ready then
      (s.check Checker.aboutToResume .assertion).map fun s => { s with checker := none }
    else s.hookAwaitSuspend ans

/-- The body is resumed by the executor, and takes the result of its awaiter if it has one. -/
def State.resumeBody (s : State) : Except Fault State :=
  let s' := { s with queued := s.queued - 1, status := .running }.record .resumed
  match s.checker with
  | none => .ok s'
  | some _ => (s'.check Checker.aboutToResume .assertion).map fun s => { s with checker := none }

/-- `cancel()`, up to the `await_cancel()` of the awaiter. -/
def State.cancel (s : State) : Except Fault State :=
  let s' := { s with asked := true }
  if s.status = .suspended then
    ({ s' with onResume := .doResumeAfterCancel }.check Checker.aboutToCancel .assertion).bind
      fun s => .ok { s with stack := .awaitCancel s.awaits :: s.stack }
  else .ok { s' with cancelRequested := true }

/-- `await_suspend()` throws, and the exception is thrown into the body. -/
def State.suspendThrows (s : State) (cancelRequested : Bool) : Except Fault State :=
  (s.check Checker.suspendThrew .protocol).map fun s =>
    State.record { s with
      checker := none
      status := .running
      cancelRequested := cancelRequested } .resumed

/-- The task is not finished. -/
def State.live (s : State) : Bool := s.parent || !s.started

/-- One action. -/
def step (s : State) : Action → Except Fault State
  | .start =>
    if s.started then .error .protocol
    else .ok { s with started := true, parent := true, onResume := .doResume }
  | .launch =>
    if s.started ∧ s.launched = false then { s with launched := true }.trampoline true
    else .error .protocol
  | .cancel => if s.live then s.cancel else .error .protocol
  | .run => if s.queued = 0 then .error .protocol else s.resumeBody
  | .coAwait ans =>
    if s.status = .running ∧ s.body = .active then s.coAwait ans else .error .protocol
  | .suspendReturns => match s.stack with
    | .awaitSuspend _ _ :: below => .ok { s with stack := below }
    | _ => .error .protocol
  | .suspendThrows => match s.stack with
    | .awaitSuspend k req :: below =>
      if k = s.awaits then { s with stack := below }.suspendThrows req else .error .protocol
    | _ => .error .protocol
  | .resume mustResume =>
    (s.check Checker.resumed .protocol).bind fun s => s.trampoline mustResume
  | .cancelReturns done => match s.stack with
    | .awaitCancel k :: below =>
      let s' := { s with stack := below }
      if done then
        if k = s.awaits then
          (s'.check (·.cancelReturned true) .protocol).bind fun s => s.propagateCancel
        else .error .protocol
      else .ok s'
    | _ => .error .protocol
  | .store exception =>
    if s.status = .running ∧ s.body = .active then
      if s.parent then .ok ({ s with body := .returned }.record (.stored exception))
      else .error .assertion
    else .error .protocol
  | .finalSuspend =>
    if s.body = .returned then
      if s.parent then .ok ({ s with body := .over, parent := false }.record .continuation)
      else .error .assertion
    else .error .protocol

end Corral.BasePromise
