import Corral.Lib.Machine
import Corral.Lib.Registry
import Corral.Detail.AwaiterStateChecker

/-!
# `Shared`: the model

`corral/Shared.h`: one shared operation with any number of awaiters, each used by a parent that
follows the awaiter protocol, and the wrapped awaiter.

What the wrapped awaiter does comes with the actions.  Its calls that may run other code
(`await_suspend()`, `await_cancel()`), and the loop of `invoke()` that wakes up the parents, are
frames on a stack; while they are in progress anything may happen.  Its other calls
(`await_early_cancel()`, `await_must_resume()`, `await_resume()`) are taken to run no code that uses
the same `Shared`.

* `Wrapped`: what has happened to the wrapped awaiter;
* `log`: the calls of interest, each with what had happened to the wrapped awaiter by then.
-/

namespace Corral.Shared

open Registry AwaiterStateChecker

/-- `Shared::State::result_`. -/
inductive Result (V Err : Type*)
  | incomplete
  | cancelPending
  | value (v : V)
  | exception (err : Err)
  | cancelling
  | cancelled
  deriving DecidableEq

/-- What `suspend()` of the first parent makes of the result. -/
def Result.onSuspend {V Err : Type*} : Result V Err → Result V Err
  | .cancelPending => .cancelling
  | r => r

/-- What `await_resume()` of the wrapped awaiter has returned or thrown. -/
def Result.ofResume {V Err : Type*} : Except Err V → Result V Err
  | .ok v => .value v
  | .error err => .exception err

/-- The wrapped awaiter: `await_ready()` returns true; `await_early_cancel()` has returned false;
`await_suspend()` has been called; the handle has not been resumed since; it has been resumed. -/
structure Wrapped where
  ready : Bool
  refused : Bool
  started : Bool
  running : Bool
  completed : Bool
  deriving DecidableEq

/-- An awaiter of `operator co_await()` or `asOptional()`, with the checker that its parent uses it
through; `attached` while `state_` is not null. -/
structure Awaiter where
  attached : Bool
  optional : Bool
  checker : Checker
  deriving DecidableEq

/-- The calls in progress. -/
inductive Frame
  /-- `await_suspend()` of the wrapped awaiter -/
  | awaitSuspend
  /-- `await_cancel()` of the wrapped awaiter, on behalf of the last parent -/
  | awaitCancel (p : ℕ)
  /-- the loop of `invoke()`, with the parents that it has not woken up yet -/
  | invoke (parents : List ℕ)
  deriving DecidableEq

/-- What is logged: calls of the wrapped awaiter, the resumption of a parent (by its handle, or
because it is told that it need not suspend), and that a parent is told of a success. -/
inductive Call
  | mustResume
  | awaitResume
  | resumes (p : ℕ)
  | succeeds (p : ℕ)
  deriving DecidableEq

/-- Why an action has no successor: an assertion fails, an object is used that does not exist any
more, or the awaiter protocol does not allow it in this state. -/
inductive Fault
  | assertion
  | dangling
  | protocol
  deriving DecidableEq

/-- `Shared::State`. -/
structure State (V Err : Type*) where
  result : Result V Err
  parents : List ℕ
  awaiters : Reg ℕ Awaiter
  wrapped : Wrapped
  stack : List Frame
  nextId : ℕ
  log : List (Call × Wrapped)

inductive Action (V Err : Type*)
  | newAwaiter (optional : Bool)
  | awaitReady (p : ℕ)
  | awaitEarlyCancel (p : ℕ) (done : Bool)
  | awaitSuspend (p : ℕ)
  | awaitCancel (p : ℕ)
  | awaitMustResume (p : ℕ) (must : Bool)
  | awaitResume (p : ℕ) (res : Except Err V)
  | drop (p : ℕ)
  | becomesReady
  | resumes (must : Bool)
  | suspendReturns
  | suspendThrows (err : Err)
  | cancelReturns (done : Bool)
  | next

variable {V Err : Type*}

def State.init : State V Err :=
  ⟨.incomplete, [], ∅, ⟨false, false, false, false, false⟩, [], 0, []⟩

def State.enter (s : State V Err) (f : Frame) : State V Err := { s with stack := f :: s.stack }

def State.record (s : State V Err) (c : Call) : State V Err :=
  { s with log := s.log ++ [(c, s.wrapped)] }

def State.setResult (s : State V Err) (r : Result V Err) : State V Err := { s with result := r }

def State.setWrapped (s : State V Err) (w : Wrapped) : State V Err := { s with wrapped := w }

def State.setAwaiter (s : State V Err) (p : ℕ) (aw : Awaiter) : State V Err :=
  { s with awaiters := s.awaiters.insert p aw }

/-- The parent has made a call, and the checker is in the state `c` now. -/
def State.check (s : State V Err) (p : ℕ) (aw : Awaiter) (c : Option Checker) :
    Except Fault (State V Err) :=
  match c with
  | some c => .ok (s.setAwaiter p { aw with checker := c })
  | none => .error .protocol

def Frame.unlink (p : ℕ) : Frame → Frame
  | .invoke ps => .invoke (ps.erase p)
  | f => f

/-- `IntrusiveListItem::unlink()`, from `parents_` or from the list that `invoke()` works on. -/
def State.unlink (s : State V Err) (p : ℕ) : State V Err :=
  { s with parents := s.parents.erase p, stack := s.stack.map (Frame.unlink p) }

/-! ### `Shared::State` -/

/-- `Shared::State::ready()`. -/
def State.ready (s : State V Err) : Bool :=
  match s.result with
  | .incomplete => s.parents.isEmpty && s.wrapped.ready
  | _ => true

/-- `await_early_cancel()` of an awaiter, with `Shared::State::earlyCancel()`; `done` is the answer
of the wrapped awaiter if it is asked. -/
def State.earlyCancel (s : State V Err) (p : ℕ) (aw : Awaiter) (done : Bool) :
    Except Fault (State V Err) :=
  let detached := { aw with attached := false }
  match aw.attached, s.parents, s.result with
  | true, [], .incomplete =>
    if done then
      (s.setResult .cancelled).check p detached (aw.checker.earlyCancelReturned true)
    else
      ((s.setResult .cancelPending).setWrapped { s.wrapped with refused := true }).check p aw
        (aw.checker.earlyCancelReturned false)
  | _, _, _ => s.check p detached (aw.checker.earlyCancelReturned true)

/-- `Shared::State::invoke()`, up to the loop; `must` is what `await_must_resume()` of the wrapped
awaiter returns if it is asked. -/
def State.invoke (s : State V Err) (must : Bool) : State V Err :=
  let s' := match s.result with
    | .cancelling => (s.record .mustResume).setResult (if must then .incomplete else .cancelled)
    | _ => s
  { s' with parents := [] }.enter (.invoke s.parents)

/-- `await_suspend()` of an awaiter, with `Shared::State::suspend()`, up to the `await_suspend()`
of the wrapped awaiter. -/
def State.suspend (s : State V Err) (p : ℕ) (aw : Awaiter) : Except Fault (State V Err) :=
  match aw.attached, (aw.checker.aboutToSetExecutor).bind Checker.aboutToSuspend with
  | true, some c =>
    let s' := { s with parents := s.parents ++ [p] }.setAwaiter p { aw with checker := c }
    if s.parents = [] then
      .ok (((s'.setResult s.result.onSuspend).setWrapped
        { s.wrapped with started := true, running := true }).enter .awaitSuspend)
    else .ok s'
  | false, some _ => .error .dangling
  | _, none => .error .protocol

/-- `await_cancel()` of an awaiter, with `Shared::State::cancel()`, up to the `await_cancel()` of
the wrapped awaiter. -/
def State.cancel (s : State V Err) (p : ℕ) (aw : Awaiter) : Except Fault (State V Err) :=
  match aw.checker.aboutToCancel with
  | none => .error .protocol
  | some c =>
    if aw.attached = false then s.check p { aw with checker := c } (c.cancelReturned true)
    else if s.parents.length = 1 then
      if s.parents = [p] then
        .ok (((s.setResult .cancelling).setAwaiter p { aw with checker := c }).enter
          (.awaitCancel p))
      else .error .assertion
    else
      (s.unlink p).check p { aw with attached := false, checker := c } (c.cancelReturned true)

/-- `await_cancel()` of the wrapped awaiter returns.  It may return true only if it has not
resumed the handle. -/
def State.cancelReturns (s : State V Err) (p : ℕ) (aw : Awaiter) (done : Bool) :
    Except Fault (State V Err) :=
  if done then
    if s.wrapped.running then
      (((s.setResult .cancelled).setWrapped { s.wrapped with running := false }).unlink p).check p
        { aw with attached := false } (aw.checker.cancelReturned true)
    else .error .protocol
  else s.check p aw (aw.checker.cancelReturned false)

/-- `Shared::State::mustResume()`; `must` is the answer of the wrapped awaiter if it is asked. -/
def State.askMustResume (s : State V Err) (must : Bool) : Bool × State V Err :=
  match s.result with
  | .cancelPending => (must, s.record .mustResume)
  | .cancelled => (false, s)
  | _ => (true, s)

/-- `await_must_resume()` of an awaiter, with the assertion on wrapped awaiters whose type says that
their cancellation always succeeds. -/
def State.mustResume (cancelAlwaysSucceeds : Bool) (s : State V Err) (p : ℕ) (aw : Awaiter)
    (must : Bool) : Except Fault (State V Err) :=
  if aw.attached = false then s.check p aw (aw.checker.mustResumeReturned false)
  else
    let (ret, s') := s.askMustResume must
    if cancelAlwaysSucceeds && ret then .error .assertion
    else
      (if ret then s'.record (.succeeds p) else s').check p aw (aw.checker.mustResumeReturned ret)

/-- The first half of `Shared::State::resultAs()`: the wrapped awaiter is asked for its result. -/
def State.fetch (s : State V Err) (res : Except Err V) : State V Err :=
  let fetched := (s.record .awaitResume).setResult (.ofResume res)
  match s.result with
  | .incomplete => fetched
  | .cancelPending => fetched
  | _ => s

/-- `await_resume()` of an awaiter, with `Shared::State::resultAs()`. -/
def State.awaitResume (s : State V Err) (p : ℕ) (aw : Awaiter) (res : Except Err V) :
    Except Fault (State V Err) :=
  if aw.attached = false then .error .assertion
  else
    let s' := s.fetch res
    let c := aw.checker.aboutToResume
    match s'.result with
    | .value _ => (s'.record (.succeeds p)).check p aw c
    | .exception _ => s'.check p aw c
    | _ => if aw.optional then s'.check p aw c else .error .assertion

/-! ### The machine -/

/-- What a parent calls. -/
def State.perform (cancelAlwaysSucceeds : Bool) (s : State V Err) (p : ℕ) (aw : Awaiter) :
    Action V Err → Except Fault (State V Err)
  | .awaitReady _ =>
    let val := !aw.attached || s.ready
    (if val then s.record (.resumes p) else s).check p aw (aw.checker.readyReturned val)
  | .awaitEarlyCancel _ done => s.earlyCancel p aw done
  | .awaitSuspend _ => s.suspend p aw
  | .awaitCancel _ => s.cancel p aw
  | .awaitMustResume _ must => s.mustResume cancelAlwaysSucceeds p aw must
  | .awaitResume _ res => s.awaitResume p aw res
  | .drop _ =>
    if aw.checker.mayReset then .ok { s with awaiters := s.awaiters.erase p }
    else .error .protocol
  | _ => .error .protocol

/-- The parent that makes a call. -/
def Action.caller : Action V Err → Option ℕ
  | .awaitReady p => some p
  | .awaitEarlyCancel p _ => some p
  | .awaitSuspend p => some p
  | .awaitCancel p => some p
  | .awaitMustResume p _ => some p
  | .awaitResume p _ => some p
  | .drop p => some p
  | _ => none

/-- What the wrapped awaiter does, and the loop of `invoke()`. -/
def State.internal (s : State V Err) : Action V Err → Except Fault (State V Err)
  | .newAwaiter optional =>
    .ok ({ s with nextId := s.nextId + 1 }.setAwaiter s.nextId ⟨true, optional, .init⟩)
  | .becomesReady => .ok (s.setWrapped { s.wrapped with ready := true })
  | .resumes must =>
    if s.wrapped.running then
      .ok ((s.setWrapped { s.wrapped with running := false, completed := true }).invoke must)
    else .error .protocol
  | .suspendReturns => match s.stack with
    | .awaitSuspend :: below => .ok { s with stack := below }
    | _ => .error .protocol
  | .suspendThrows err => match s.stack with
    | .awaitSuspend :: below =>
      if s.wrapped.running then
        .ok (({ s with stack := below }.setResult (.exception err)).setWrapped
          { s.wrapped with running := false } |>.invoke false)
      else .error .protocol
    | _ => .error .protocol
  | .cancelReturns done => match s.stack with
    | .awaitCancel p :: below => match s.awaiters.lookup p with
      | some aw => { s with stack := below }.cancelReturns p aw done
      | none => .error .dangling
    | _ => .error .protocol
  | .next => match s.stack with
    | .invoke [] :: below => .ok { s with stack := below }
    | .invoke (p :: ps) :: below => match s.awaiters.lookup p with
      | some aw =>
        ({ s with stack := .invoke ps :: below }.record (.resumes p)).check p aw aw.checker.resumed
      | none => .error .dangling
    | _ => .error .protocol
  | _ => .error .protocol

/-- One action.  `cancelAlwaysSucceeds` is a property of the wrapped awaiter's type. -/
def step (cancelAlwaysSucceeds : Bool) (s : State V Err) (a : Action V Err) :
    Except Fault (State V Err) :=
  match a.caller with
  | some p => match s.awaiters.lookup p with
    | some aw => s.perform cancelAlwaysSucceeds p aw a
    | none => .error .protocol
  | none => s.internal a

end Corral.Shared
