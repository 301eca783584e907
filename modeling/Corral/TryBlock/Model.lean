import Corral.Lib.Machine
import Corral.Detail.AwaiterStateChecker

/-!
# `TryBlock`: the model

`corral/detail/exception.h`: `co_await try_(body).catch_(h1)...catch_(hk).finally(f)`, from the first
call that the parent makes to the outcome.

A clause of the block (its body, a handler, or the finally clause) is a lambda that returns a task.
While the lambda is being called, and while its task is in progress, other code has control, and the
parent may ask the block to cancel; everything else the block does is one step.

* `State.invoke`, `State.continuation`, `State.dispatchException`: the functions of the source that
  call each other from one stage to the next;
* `Event`: what happens to the clauses and to the parent, in order.

A task that its lambda returns ready-made holds a value and no coroutine; so only the others are
created and destroyed here.
-/

namespace Corral.TryBlock

open AwaiterStateChecker

inductive Stage
  | tryStage
  | catchStage
  | finallyStage
  deriving DecidableEq

/-- A handler: the exceptions that its parameter matches, or the `Ellipsis`. -/
inductive Handler (Exn : Type*)
  | typed (catches : Exn → Bool)
  | ellipsis

/-- The handlers in the order of their declaration, and whether there is a finally clause. -/
structure Block (Exn : Type*) where
  handlers : List (Handler Exn)
  hasFinally : Bool

inductive Clause
  | body
  | handler (i : ℕ)
  | cleanup
  deriving DecidableEq

/-- How a clause ends, and how the block does. -/
inductive Result (Exn : Type*)
  | value
  | threw (e : Exn)
  | cancelled
  deriving DecidableEq

def Result.isCancelled {Exn : Type*} : Result Exn → Bool
  | .cancelled => true
  | _ => false

inductive Event (Exn : Type*)
  /-- the lambda of the clause is called -/
  | started (c : Clause)
  /-- it has returned a task, which is being started -/
  | created (c : Clause)
  /-- the task is asked to cancel -/
  | asked (c : Clause)
  | ended (c : Clause) (r : Result Exn)
  /-- the task is destroyed -/
  | destroyed (c : Clause)
  /-- the handle of the parent is resumed -/
  | resumed
  /-- what the parent is told -/
  | outcome (r : Result Exn)
  /-- `std::terminate()` -/
  | terminated
  deriving DecidableEq

/-- The task in `task_`, and whether it has been asked to cancel. -/
structure Pending where
  clause : Clause
  asked : Bool
  deriving DecidableEq

/-- A try block.  `calling` is the clause whose lambda is being called, and `suspending` says that
this happens within `await_suspend()`. -/
structure State (Exn : Type*) where
  stage : Stage
  earlyCancel : Bool
  completed : Bool
  exceptionHandled : Bool
  exception : Option Exn
  task : Option Pending
  parent : Bool
  calling : Option Clause
  suspending : Bool
  terminated : Bool
  checker : Checker
  history : List (Event Exn)

inductive Action (Exn : Type*)
  | awaitReady
  | awaitEarlyCancel
  | awaitSetExecutor
  | awaitSuspend
  | lambdaReady
  | lambdaThrows (e : Exn)
  | lambdaReturns
  | taskEnds (r : Result Exn)
  | awaitCancel
  | awaitMustResume
  | awaitResume

/-- The action is not possible in this state. -/
inductive Fault
  | protocol
  deriving DecidableEq

variable {Exn : Type*}

def State.init : State Exn :=
  ⟨.tryStage, false, false, false, none, none, false, none, false, false, .init, []⟩

def State.record (s : State Exn) (e : Event Exn) : State Exn :=
  { s with history := s.history ++ [e] }

/-- Whether the parameter of the handler matches the exception. -/
def Handler.catches : Handler Exn → Exn → Bool
  | .typed p, e => p e
  | .ellipsis, _ => true

/-! ### The stages -/

/-- `storeValue()`. -/
def State.storeValue (s : State Exn) : State Exn :=
  if s.stage = .tryStage ∨ s.stage = .catchStage then
    { s with completed := true, exception := none }
  else s

/-- `storeException()`, with `e` as the current exception. -/
def State.storeException (s : State Exn) (e : Exn) : State Exn :=
  if s.stage = .finallyStage ∧ s.exception.isSome then
    { s with terminated := true }.record .terminated
  else { s with exception := some e, exceptionHandled := false }

/-- `invoke(lambda)`, up to the call of the lambda. -/
def State.invoke (s : State Exn) (c : Clause) : State Exn :=
  { s with calling := some c }.record (.started c)

/-- `return std::exchange(parent_, noopHandle())`, and the resumption of what is returned. -/
def State.resumeParent (s : State Exn) : State Exn :=
  if s.parent then
    { s with
      parent := false
      suspending := false
      checker := s.checker.resumed.getD s.checker }.record .resumed
  else s

/-- `task_.reset()`. -/
def State.resetTask (s : State Exn) : State Exn :=
  match s.task with
  | none => s
  | some k => { s with task := none }.record (.destroyed k.clause)

section Code

variable (b : Block Exn)

/-- `stage_ = Stage::FINALLY; return invoke(finallyLambda_)`.  Without a finally clause, `invoke()`
calls `storeValue()` and `continuation()` itself. -/
def State.invokeFinally (s : State Exn) : State Exn :=
  let s := { s with stage := .finallyStage }
  if b.hasFinally then s.invoke .cleanup else s.storeValue.resumeParent

/-- `dispatchException<I>()` over the handlers from number `i` on. -/
def State.dispatchException (s : State Exn) (e : Exn) : List (Handler Exn) → ℕ → State Exn
  -- `continuation(nullptr)` at the stage `CATCH`
  | [], _ => s.invokeFinally b
  | .ellipsis :: _, i => s.invoke (.handler i)
  | .typed p :: hs, i =>
    if p e then { s with exceptionHandled := true }.invoke (.handler i)
    else s.dispatchException e hs (i + 1)

/-- `continuation()`. -/
def State.continuation (s : State Exn) : State Exn :=
  let s := s.resetTask
  match s.stage with
  | .tryStage => match s.exception with
    | some e => { s with stage := .catchStage }.dispatchException b e b.handlers 0
    | none => s.invokeFinally b
  | .catchStage => s.invokeFinally b
  | .finallyStage => s.resumeParent

/-- A clause has ended; its result is stored, unless it has been cancelled. -/
def State.finish (s : State Exn) (c : Clause) (r : Result Exn) : State Exn :=
  let s := s.record (.ended c r)
  match r with
  | .value => s.storeValue.continuation b
  | .threw e =>
    let s := s.storeException e
    if s.terminated then s else s.continuation b
  | .cancelled => s.continuation b

end Code

/-- `task_->cancel()`, unless the stage is `FINALLY` or there is no task. -/
def State.cancelTask (s : State Exn) : State Exn :=
  match s.task with
  | none => s
  | some k =>
    if s.stage = .finallyStage then s
    else { s with task := some { k with asked := true } }.record (.asked k.clause)

/-- The lambda has returned a task, which is put into `task_` and started; `await_suspend()` then
cancels it if the block has been cancelled before. -/
def State.startTask (s : State Exn) (c : Clause) : State Exn :=
  let s := { s with calling := none, task := some ⟨c, false⟩ }.record (.created c)
  if s.suspending then
    let s := { s with suspending := false }
    if s.earlyCancel then s.cancelTask else s
  else s

/-- `await_must_resume()`. -/
def State.mustResume (s : State Exn) : Bool :=
  s.completed || (s.exception.isSome && !s.exceptionHandled)

/-- `await_resume()`. -/
def State.result (s : State Exn) : Result Exn :=
  match s.exception with
  | some e => if s.exceptionHandled then .value else .threw e
  | none => .value

/-! ### The machine -/

/-- The parent has made a call, and the checker is in the state `c` now. -/
def State.check (s : State Exn) (c : Option Checker) : Except Fault (State Exn) :=
  match c with
  | some c => .ok { s with checker := c }
  | none => .error .protocol

section Machine

variable (b : Block Exn)

/-- The lambda in progress comes back. -/
def State.onLambda (s : State Exn) (f : State Exn → Clause → State Exn) : Except Fault (State Exn) :=
  match s.calling with
  | some c => .ok (f { s with calling := none } c)
  | none => .error .protocol

/-- The task in progress ends; it may end by cancellation only if it has been asked to. -/
def State.taskEnds (s : State Exn) (r : Result Exn) : Except Fault (State Exn) :=
  match s.task with
  | some k =>
    if r.isCancelled && !k.asked then .error .protocol else .ok (s.finish b k.clause r)
  | none => .error .protocol

/-- One action. -/
def act (s : State Exn) : Action Exn → Except Fault (State Exn)
  | .awaitReady => s.check (s.checker.readyReturned false)
  | .awaitEarlyCancel =>
    { s with earlyCancel := true }.check (s.checker.earlyCancelReturned false)
  | .awaitSetExecutor => s.check s.checker.aboutToSetExecutor
  | .awaitSuspend => (s.check s.checker.aboutToSuspend).map fun s =>
      { s with parent := true, suspending := true }.invoke .body
  | .lambdaReady => s.onLambda fun s c => s.finish b c .value
  | .lambdaThrows e => s.onLambda fun s c => s.finish b c (.threw e)
  | .lambdaReturns => s.onLambda State.startTask
  | .taskEnds r => s.taskEnds b r
  | .awaitCancel => (s.check s.checker.aboutToCancel).map State.cancelTask
  | .awaitMustResume => (s.check (s.checker.mustResumeReturned s.mustResume)).map fun s =>
      if s.mustResume then s else s.record (.outcome .cancelled)
  | .awaitResume => (s.check s.checker.aboutToResume).map fun s => s.record (.outcome s.result)

/-- One action, unless the program has been terminated. -/
def step (s : State Exn) (a : Action Exn) : Except Fault (State Exn) :=
  if s.terminated then .error .protocol else act b s a

end Machine

end Corral.TryBlock
