import Corral.Lib.Machine
import Corral.Lib.Registry

/-!
# Nurseries: the model

`corral/Nursery.h` with what it uses of `corral/detail/Promise.h`: one nursery of any kind, the
promises of its tasks, and the awaiters of `co_await start()` that have not handed their task over
yet.

What the awaiters, the tasks and the callers do comes with the actions.  A call that may run other
code (the executor within `runSoon()` or `drain()`, an awaiter's `await_cancel()`, the callable of
a scoped nursery) is a frame on a stack, and while it is on top anything may happen.  The other
frames are calls of the nursery's own code that are about to be executed, by the action `next`.

The callbacks that wait in executors are executed in any order: the tasks of a nursery and the
tasks that start them may run on different executors.
-/

namespace Corral.Nursery

open Registry

/-- How the nursery was made: `CORRAL_WITH_NURSERY`, `UnsafeNursery`, `openNursery()`. -/
inductive Kind
  | scope
  | unsafeNursery
  | backreferenced
  deriving DecidableEq

/-- The parent of a promise: `BasicNursery`, `BasicNursery::Scope`, `NurseryStartAwaiter`. -/
inductive Parent
  | nursery
  | scope
  | starter (a : ℕ)
  deriving DecidableEq

/-- `BasePromise::state_`; `returned` is a running task whose result has been stored, and a
suspended task has an awaiter. -/
inductive Status
  | ready
  | running
  | returned
  | suspended
  deriving DecidableEq

/-- `CoroutineFrame::resumeFn`. -/
inductive Trampoline
  | doNothing
  | doResume
  | doResumeAfterCancel
  deriving DecidableEq

/-- `BasePromise`. -/
structure Promise where
  parent : Option Parent
  status : Status
  cancelRequested : Bool
  onResume : Trampoline
  deriving DecidableEq

/-- What a task returns: a value, which in a nursery's body says how to go on, or an error. -/
inductive Outcome (Err : Type*)
  | join
  | cancel
  | error (err : Err)
  deriving DecidableEq

/-- What `makePromise()` yields for a callable that is not started by a start awaiter: a promise, or the
outcome right away. -/
inductive Made (Err : Type*)
  | promise
  | done (out : Outcome Err)
  deriving DecidableEq

/-- `NurseryStartAwaiter::result_`. -/
inductive StartResult (Err : Type*)
  | incomplete
  | value
  | error (err : Err)
  | cancelled
  deriving DecidableEq

/-- `NurseryStartAwaiter`; `sink` until its `TaskStarted` has been invoked, which is made together with the
promise. -/
structure Starter (Err : Type*) where
  nursery : Bool
  promise : Option ℕ
  handle : Bool
  cancelling : Bool
  result : StartResult Err
  sink : Bool
  deriving DecidableEq

/-- What an awaiter answers: `await_early_cancel()`, `await_ready()`, `await_must_resume()`. -/
structure Answers where
  earlyCancel : Bool
  ready : Bool
  mustResume : Bool
  deriving DecidableEq

/-- What waits in an executor. -/
inductive Callback
  | run (p : ℕ)
  | cancel (p : ℕ)
  | destroy (p : ℕ)
  | resumeParent
  | cancelNursery
  deriving DecidableEq

/-- The calls in progress. -/
inductive Frame
  /-- the callable of a scoped nursery, in `Scope::await_suspend()` -/
  | body
  /-- `continuation()` of a promise's parent, not executed yet -/
  | continuation (par : Parent) (p : Option ℕ)
  /-- `runSoon()`; `ret`: the resumption of the parent is to be submitted next -/
  | runSoon (ret : Bool)
  /-- the rest of `adopt()`, and of `handOff()` of a start awaiter or else of `addPromise()` -/
  | adopt (p : ℕ) (par : Parent)
  /-- `await_cancel()` of a task's awaiter -/
  | awaitCancel (p : ℕ)
  /-- `drain()` in `close()` -/
  | closing
  deriving DecidableEq

/-- Why an action has no successor: an assertion fails, the program is terminated, an object is
used that does not exist any more, or the awaiter protocol does not allow it in this state. -/
inductive Fault
  | assertion
  | terminated
  | dangling
  | protocol
  deriving DecidableEq

/-- A nursery.  `pendingTaskCount` does not wrap around: fewer than `2 ^ 32` starts are pending.  `joined`:
it has had a parent; `scheduled`: the resumption of its parent has been submitted to the executor. -/
structure State (Err : Type*) where
  kind : Kind
  executor : Bool
  cancelling : Bool
  tasks : List ℕ
  taskCount : UInt32
  pendingTaskCount : ℕ
  parent : Bool
  error : Option Err
  backref : Bool
  promises : Reg ℕ Promise
  starters : Reg ℕ (Starter Err)
  nextId : ℕ
  queue : List Callback
  stack : List Frame
  joined : Bool
  scheduled : Bool

inductive Action (Err : Type*)
  | openScope
  | bodyReturns (m : Made Err)
  | join
  | asyncClose
  | close
  | cancel
  | start (m : Made Err)
  | newStart
  | startEarlyCancel (a : ℕ)
  | startSuspend (a : ℕ) (failure : Option Err)
  | startCancel (a : ℕ)
  | started (a : ℕ)
  | dropStart (a : ℕ)
  | await (p : ℕ) (ans : Answers)
  | resume (p : ℕ) (mustResume : Bool)
  | cancelReturns (done : Bool)
  | storeResult (p : ℕ) (out : Outcome Err)
  | finalSuspend (p : ℕ)
  | callback (cb : Callback)
  | next

variable {Err : Type*}

/-- A nursery that has just been constructed; a scoped nursery has no executor yet. -/
def State.init (kind : Kind) : State Err where
  kind := kind
  executor := decide (kind ≠ .scope)
  cancelling := false
  tasks := []
  taskCount := 0
  pendingTaskCount := 0
  parent := false
  error := none
  backref := decide (kind = .backreferenced)
  promises := ∅
  starters := ∅
  nextId := 0
  queue := []
  stack := []
  joined := false
  scheduled := false

def State.enter (s : State Err) (f : Frame) : State Err := { s with stack := f :: s.stack }

def State.submit (s : State Err) (cb : Callback) : State Err := { s with queue := s.queue ++ [cb] }

def State.setPromise (s : State Err) (p : ℕ) (pr : Promise) : State Err :=
  { s with promises := s.promises.insert p pr }

def State.setStarter (s : State Err) (a : ℕ) (st : Starter Err) : State Err :=
  { s with starters := s.starters.insert a st }

/-! ### `BasePromise` -/

/-- `BasePromise::cancel()`, up to the `await_cancel()` of the awaiter. -/
def State.cancelPromise (s : State Err) (p : ℕ) : Except Fault (State Err) :=
  match s.promises.lookup p with
  | none => .error .dangling
  | some pr =>
    if pr.status = .suspended then
      .ok ((s.setPromise p { pr with onResume := .doResumeAfterCancel }).enter (.awaitCancel p))
    else .ok (s.setPromise p { pr with cancelRequested := true })

/-- `BasePromise::doResume()`. -/
def State.doResume (s : State Err) (p : ℕ) (pr : Promise) : State Err :=
  (s.setPromise p { pr with status := .ready, onResume := .doNothing }).submit (.run p)

/-- `BaseTaskParent::cancelled()`. -/
def State.cancelled (s : State Err) : Parent → State Err
  | .starter a => match s.starters.lookup a with
    | some st => s.setStarter a { st with result := .cancelled }
    | none => s
  | _ => s

/-- `BasePromise::propagateCancel()`. -/
def State.propagateCancel (s : State Err) (p : ℕ) (pr : Promise) : Except Fault (State Err) :=
  match pr.parent with
  | none => .error .dangling
  | some par =>
    .ok (((s.setPromise p { pr with parent := none }).cancelled par).enter
      (.continuation par (some p)))

/-- `BasePromise::doResumeAfterCancel()`. -/
def State.doResumeAfterCancel (s : State Err) (p : ℕ) (pr : Promise) (mustResume : Bool) :
    Except Fault (State Err) :=
  if pr.status = .suspended ∧ mustResume then .ok (s.doResume p { pr with cancelRequested := true })
  else s.propagateCancel p pr

/-- `BasePromise::hookAwaitSuspend()`. -/
def State.hookAwaitSuspend (s : State Err) (p : ℕ) (pr : Promise) (ans : Answers) :
    Except Fault (State Err) :=
  let pr' := { pr with status := .suspended, cancelRequested := false }
  if pr.cancelRequested then
    if ans.earlyCancel then s.propagateCancel p pr'
    else
      let pr'' := { pr' with onResume := .doResumeAfterCancel }
      if ans.ready then s.doResumeAfterCancel p pr'' ans.mustResume
      else .ok (s.setPromise p pr'')
  else .ok (s.setPromise p { pr' with onResume := .doResume })

/-- `BasePromise::destroy()`, which unlinks the promise if it is linked. -/
def State.destroy (s : State Err) (p : ℕ) : State Err :=
  { s with promises := s.promises.erase p, tasks := s.tasks.erase p }

/-! ### `NurseryBase` -/

/-- `NurseryBase::doCancel()`. -/
def State.doCancel (s : State Err) : State Err :=
  if s.executor = false ∨ s.tasks = [] then s
  else { s with queue := s.queue ++ s.tasks.map Callback.cancel }.enter (.runSoon false)

/-- `NurseryBase::cancel()`. -/
def State.cancel (s : State Err) : State Err :=
  if s.cancelling then s else { s with cancelling := true }.doCancel

/-- `BasicNursery::storeError()`. -/
def State.storeError (s : State Err) (err : Err) : Except Fault (State Err) :=
  if s.parent = false then .error .terminated
  else
    let s' := { s with
      error := if s.error.isSome then s.error else some err
      cancelling := true }
    .ok (if s.cancelling then s' else s'.doCancel)

/-- `NurseryBase::adopt()`, up to `push_back()`. -/
def State.adopt (s : State Err) (p : ℕ) (par : Parent) : Except Fault (State Err) :=
  if s.executor = false then .error .assertion
  else
    let s' := s.enter (.adopt p par)
    if s.cancelling then s'.cancelPromise p else .ok s'

/-- The rest of `adopt()`, then of `handOff()`, which resumes the starter, or of `addPromise()`,
which starts the task. -/
def State.adopted (s : State Err) (p : ℕ) (par : Parent) : Except Fault (State Err) :=
  match s.promises.lookup p with
  | none => .error .dangling
  | some pr =>
    let s' := { s with
      tasks := s.tasks.erase p ++ [p]
      taskCount := s.taskCount + 1 }
    match par with
    | .starter a => match s.starters.lookup a with
      | some st => .ok (s'.setStarter a { st with handle := false })
      | none => .error .dangling
    | _ => .ok (s'.doResume p { pr with parent := some par })

/-- `NurseryBase::addPromise()`: a promise that has not been started yet, on behalf of `par`. -/
def State.addPromise (s : State Err) (par : Parent) : Except Fault (State Err) :=
  { s with
    promises := s.promises.insert s.nextId ⟨none, .ready, false, .doNothing⟩
    nextId := s.nextId + 1 }.adopt s.nextId par

/-- The end of `NurseryBase::continuation()`: the resumption of the parent, if there is one, is
submitted to the executor. -/
def State.submitResume (s : State Err) (ret : Bool) : State Err :=
  if ret then ({ s with scheduled := true }.submit .resumeParent).enter (.runSoon false) else s

/-- What `BackreferencedNursery::continuation()` does first. -/
def State.dropBackref (s : State Err) : State Err :=
  if s.kind = .backreferenced ∧ s.taskCount = 1 ∧ s.pendingTaskCount = 0 then
    { s with backref := false }
  else s

/-- The task that is done, if any, is taken off the list. -/
def State.eraseTask (s : State Err) : Option ℕ → State Err
  | some p => { s with tasks := s.tasks.erase p, taskCount := s.taskCount - 1 }
  | none => s

/-- The nursery can be closed. -/
def State.finished (s : State Err) : Bool :=
  s.tasks.isEmpty && s.pendingTaskCount == 0 && s.parent

/-- `continuation()` of the nursery, up to the `runSoon()` that submits the destruction of the
promise. -/
def State.continuation (s : State Err) (p : Option ℕ) : Except Fault (State Err) :=
  let s' := s.dropBackref.eraseTask p
  let ret := s'.finished
  if s.executor = false ∧ (p.isSome ∨ ret) then .error .dangling
  else
    let s'' := if ret then { s' with parent := false, executor := false } else s'
    match p with
    | some p => .ok ((s''.submit (.destroy p)).enter (.runSoon ret))
    | none => .ok (s''.submitResume ret)

/-! ### `TaskParent` -/

/-- `storeValue()` and `storeException()` of the nursery. -/
def State.storeInNursery (s : State Err) : Outcome Err → Except Fault (State Err)
  | .error err => s.storeError err
  | _ => .ok s

/-- `storeValue()` and `storeException()` of the nursery's scope. -/
def State.storeInScope (s : State Err) : Outcome Err → Except Fault (State Err)
  | .join => .ok s
  | .cancel => .ok s.cancel
  | .error err => s.storeError err

/-- `storeValue()` and `storeException()` of a start awaiter. -/
def State.storeInStarter (s : State Err) (a : ℕ) (out : Outcome Err) : Except Fault (State Err) :=
  match s.starters.lookup a with
  | none => .error .dangling
  | some st => match out with
    | .error err => .ok (s.setStarter a { st with result := .error err })
    | _ => if st.cancelling then .ok s else .error .assertion

def State.store (s : State Err) : Parent → Outcome Err → Except Fault (State Err)
  | .nursery, out => s.storeInNursery out
  | .scope, out => s.storeInScope out
  | .starter a, out => s.storeInStarter a out

/-! ### `NurseryStartAwaiter` -/

/-- `NurseryStartAwaiter::await_suspend()`.  The callable has an argument, so `makePromise()` invokes it
within a coroutine that has not been started yet: `TaskStarted` has not been invoked when the promise is
there.  `makePromise()` itself can fail, where it moves the arguments or allocates the coroutine. -/
def State.startSuspend (s : State Err) (a : ℕ) (st : Starter Err) :
    Option Err → Except Fault (State Err)
  | none =>
    let p := s.nextId
    .ok ({ s with
      pendingTaskCount := s.pendingTaskCount + 1
      nextId := s.nextId + 1 }.setStarter a { st with promise := some p, handle := true }
      |>.doResume p ⟨some (.starter a), .ready, st.cancelling, .doNothing⟩)
  | some err => match s.storeError err with
    | .ok _ => .error .assertion
    | .error f => .error f

/-- `NurseryStartAwaiter::continuation()`. -/
def State.startContinuation (s : State Err) (a : ℕ) : Except Fault (State Err) :=
  match s.starters.lookup a with
  | none => .error .dangling
  | some st =>
    let s' := if st.nursery then { s with pendingTaskCount := s.pendingTaskCount - 1 } else s
    .ok (s'.setStarter a { st with nursery := false, handle := false })

/-- `NurseryStartAwaiter::markStarted()` and `handOff()`, once the promise exists. -/
def State.markStarted (s : State Err) (a : ℕ) (st : Starter Err) (p : ℕ) :
    Except Fault (State Err) :=
  let st' := { st with result := .value, sink := false }
  if st.cancelling then .ok (s.setStarter a st')
  else match st.nursery, s.promises.lookup p with
    | true, some pr =>
      { s with pendingTaskCount := s.pendingTaskCount - 1 }.setStarter a
        { st' with nursery := false, promise := none }
        |>.setPromise p { pr with parent := some .nursery }
        |>.adopt p (.starter a)
    | _, _ => .error .dangling

/-! ### The machine -/

/-- Other code has control. -/
def othersInControl : List Frame → Bool
  | [] => true
  | .body :: _ => true
  | .runSoon _ :: _ => true
  | .awaitCancel _ :: _ => true
  | .closing :: _ => true
  | _ => false

/-- An executor executes a callback. -/
def State.execute (s : State Err) : Callback → Except Fault (State Err)
  | .run p => match s.promises.lookup p with
    | some pr => .ok (s.setPromise p { pr with status := .running })
    | none => .error .dangling
  | .cancel p => s.cancelPromise p
  | .destroy p => .ok (s.destroy p)
  | .resumeParent => .ok s
  | .cancelNursery => .ok s.cancel

/-- The call on top of the stack is executed, or returns. -/
def State.next (s : State Err) : Except Fault (State Err) :=
  match s.stack with
  | .continuation (.starter a) _ :: below => { s with stack := below }.startContinuation a
  | .continuation _ p :: below => { s with stack := below }.continuation p
  | .adopt p par :: below => { s with stack := below }.adopted p par
  | .runSoon ret :: below => .ok ({ s with stack := below }.submitResume ret)
  | .closing :: below =>
    if s.tasks = [] then .ok { s with stack := below, executor := false } else .error .assertion
  | _ => .error .protocol

/-- An action of the callers, the tasks, the awaiters and the executors. -/
def State.perform (s : State Err) : Action Err → Except Fault (State Err)
  | .openScope =>
    if s.kind = .scope ∧ s.joined = false then
      .ok ({ s with executor := true, parent := true, joined := true }.enter .body)
    else .error .protocol
  | .bodyReturns m => match s.stack with
    | .body :: below => match m with
      | .promise => { s with stack := below }.addPromise .scope
      | .done out => { s with stack := .continuation .scope none :: below }.storeInScope out
    | _ => .error .protocol
  | .join =>
    if s.kind = .scope then .error .protocol
    else if s.executor = false then .ok s
    else if s.parent then .error .assertion
    else if s.tasks = [] then .ok { s with executor := false }
    else .ok { s with parent := true, joined := true }
  | .asyncClose =>
    if s.kind ≠ .unsafeNursery then .error .protocol
    else if s.parent then .error .assertion
    else if s.tasks = [] then .ok { s with executor := false }
    else .ok { s with parent := true, joined := true }.cancel
  | .close =>
    if s.kind ≠ .unsafeNursery then .error .protocol
    else .ok ((if s.tasks = [] then s else s.submit .cancelNursery).enter .closing)
  | .cancel => .ok s.cancel
  | .start m => match m with
    | .promise => s.addPromise .nursery
    | .done out => s.storeInNursery out
  | .newStart =>
    .ok ({ s with nextId := s.nextId + 1 }.setStarter s.nextId
      ⟨true, none, false, false, .incomplete, true⟩)
  | .startEarlyCancel a => match s.starters.lookup a with
    | some st =>
      if st.promise = none ∧ st.nursery then .ok (s.setStarter a { st with cancelling := true })
      else .error .protocol
    | none => .error .protocol
  | .startSuspend a failure => match s.starters.lookup a with
    | some st =>
      if st.promise = none ∧ st.nursery then s.startSuspend a st failure else .error .protocol
    | none => .error .protocol
  | .startCancel a => match s.starters.lookup a with
    | some st =>
      if st.handle = false ∨ st.cancelling then .error .protocol
      else match st.promise with
        | some p => (s.setStarter a { st with cancelling := true }).cancelPromise p
        | none => .ok s
    | none => .error .protocol
  | .started a => match s.starters.lookup a with
    | some st => match st.sink, st.promise with
      | true, some p => s.markStarted a st p
      | _, _ => .error .protocol
    | none => .error .protocol
  | .dropStart a => match s.starters.lookup a with
    | some st =>
      if st.handle then .error .protocol
      else if st.nursery then .error .assertion
      else
        let s' := { s with starters := s.starters.erase a }
        match st.promise with
        | some p => .ok (s'.destroy p)
        | none => .ok s'
    | none => .error .protocol
  | .await p ans => match s.promises.lookup p with
    | some pr => if pr.status = .running then s.hookAwaitSuspend p pr ans else .error .protocol
    | none => .error .protocol
  | .resume p mustResume => match s.promises.lookup p with
    | some pr =>
      if pr.status = .suspended ∧ pr.parent.isSome then match pr.onResume with
        | .doNothing => .ok s
        | .doResume => .ok (s.doResume p pr)
        | .doResumeAfterCancel => s.doResumeAfterCancel p pr mustResume
      else .error .protocol
    | none => .error .protocol
  | .cancelReturns done => match s.stack with
    | .awaitCancel p :: below =>
      if done then match s.promises.lookup p with
        | some pr =>
          if pr.status = .suspended then { s with stack := below }.propagateCancel p pr
          else .error .protocol
        | none => .error .dangling
      else .ok { s with stack := below }
    | _ => .error .protocol
  | .storeResult p out => match s.promises.lookup p with
    | some pr => match pr.status, pr.parent with
      | .running, some par => (s.setPromise p { pr with status := .returned }).store par out
      | _, _ => .error .protocol
    | none => .error .protocol
  | .finalSuspend p => match s.promises.lookup p with
    | some pr => match pr.status, pr.parent with
      | .returned, some par =>
        .ok ((s.setPromise p { pr with parent := none }).enter (.continuation par (some p)))
      | _, _ => .error .protocol
    | none => .error .protocol
  | .callback cb =>
    if cb ∈ s.queue then { s with queue := s.queue.erase cb }.execute cb else .error .protocol
  | .next => .error .protocol

/-- One action. -/
def step (s : State Err) : Action Err → Except Fault (State Err)
  | .next => s.next
  | a => if othersInControl s.stack then s.perform a else .error .protocol

end Corral.Nursery
