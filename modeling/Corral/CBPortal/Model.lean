import Corral.Executor.Model

/-!
# `CBPortal`: the model

`corral/CBPortal.h`, with the tasks that await the portals and the executors that run them.

A task awaits a portal, `anyOf()` of several portals, or either of them through `untilCBCalled()`
(`CBPortalProxy`), or it is elsewhere, suspended on something else.  Its steps are callbacks of its
executor (`job`), and what happens in `capture()` is left to the model of the executors.  Whoever
has control may invoke a bridge callback that has been handed out: the event loop, a task, an
initiate function.

* `wakeUp()`, `Callback::operator()()`, `await_suspend()` and `await_cancel()` are those of
  `CBPortal`, `State.coAwait` and `State.initiateReturns` are `hookAwaitSuspend()` of the task with
  the functions of `CBPortalProxy`;
* portals confirm a cancellation at once, by resuming the handle that they have, so what a mux of
  portals does when one of them is ready, or when it is cancelled, is done in one go; the `capture()`
  of a portal that is cancelled by a mux schedules nothing, and is left out;
* a portal has one awaiter at a time, as any awaiter; the portals of a proxy that owns them are not
  used by anybody else; the cancellation function does not invoke the callback;
* `args` and `results` record what the callback of a portal is invoked with, and what those who await
  the portal get; `steps` counts the steps that a task has finished, and `course` records what happens to
  each co_await.

An initiate function may throw.  The resumption of a task or of a `MuxHelper` that does not exist any
more is a `Fault`.
-/

namespace Corral.CBPortal

open Executor (ListRef)

/-- `CBPortalProxyStatus`. -/
inductive ProxyStatus
  | notStarted
  | scheduled
  | cancelPending
  | initiated
  deriving DecidableEq

/-- The awaiter of a task: a portal, or `anyOf()` of portals. -/
inductive Awaiter (P : Type*)
  | portal (p : P)
  | anyOf (p : P) (ps : List P)

/-- A `CBPortalProxy`: of portals of the user, or with portals of its own and perhaps a cancellation
function. -/
inductive Proxy
  | external
  | inline (cancelFn : Bool)

/-- The operand of a co_await. -/
structure Await (P : Type*) where
  awaiter : Awaiter P
  proxy : Option Proxy

def Awaiter.portals {P : Type*} : Awaiter P → List P
  | .portal p => [p]
  | .anyOf p ps => p :: ps

/-- `std::get<0>(portals_)`. -/
def Awaiter.first {P : Type*} : Awaiter P → P
  | .portal p => p
  | .anyOf p _ => p

abbrev Await.portals {P : Type*} (a : Await P) : List P := a.awaiter.portals

/-- The handle of a task, or that of a child of the mux in its co_await with this number. -/
inductive Handle (T : Type*)
  | task (x : T)
  | child (x : T) (number : ℕ)

def Handle.owner {T : Type*} : Handle T → T
  | .task x => x
  | .child x _ => x

/-- The handle that the portals get. -/
def Await.handle {P T : Type*} (a : Await P) (x : T) (number : ℕ) : Handle T :=
  match a.awaiter with
  | .portal _ => .task x
  | .anyOf _ _ => .child x number

/-- A co_await in progress.  `got` is the result that the mux has got from one of its children;
`cancelling`: the task is resumed by `doResumeAfterCancel()`. -/
structure Pending (P V : Type*) where
  number : ℕ
  await : Await P
  got : Option (P × V)
  cancelling : Bool

/-- A task.  If it is elsewhere and its cancellation has been requested, what `await_must_resume()`
answers there. -/
inductive Status (P V : Type*)
  | unstarted
  | ready (aw : Option (Pending P V))
  | running
  | waiting (aw : Pending P V)
  | elsewhere (must : Option Bool)
  | ended

def Status.isRunning {P V : Type*} : Status P V → Bool
  | .running => true
  | _ => false

/-- The task is suspended on a portal, or about to take its result. -/
def Status.isSuspended {P V : Type*} : Status P V → Bool
  | .waiting _ => true
  | .ready (some _) => true
  | _ => false

/-- An `await_suspend()` of a proxy whose initiate function is in progress: the co_await, the frames
below, the `cancelRequested` of `hookAwaitSuspend()`, and what `completed_` points to. -/
structure Initiation (T : Type*) where
  task : T
  number : ℕ
  depth : ℕ
  requested : Bool
  completed : Bool

/-- Why an action has no successor: an assertion fails, something is used that does not exist any
more, the action is not possible in this state, or the executors recurse without end. -/
inductive Fault
  | assertion
  | dangling
  | protocol
  | diverges
  deriving DecidableEq

/-- What happens to a co_await: it is cancelled before it begins, the initiate function is called,
returns, or throws, the cancellation is requested, a callback is invoked, the cancellation function is
called, the cancellation is confirmed, the task gets the result. -/
inductive Event (P V : Type*)
  | skipped
  | initiated (proxy : Proxy)
  | returned
  | threw
  | requested
  | delivered (p : P) (v : V)
  | cancelFn
  | confirmed
  | resumed (p : P) (v : V)

structure State (E P T V : Type*) where
  exec : Executor.State E
  job : ℕ → Option T
  status : T → Status P V
  requested : T → Bool
  awaits : T → ℕ
  steps : T → ℕ
  value : P → Option V
  parent : P → Option (Handle T)
  executor : P → Option E
  proxyStatus : P → ProxyStatus
  callback : P → Bool
  initiating : List (Initiation T)
  args : P → List V
  results : P → List V
  course : T → ℕ → List (Event P V)

inductive Action (E P T V : Type*)
  | runSoon (e : E)
  | drain (e : E)
  | capture (e : E)
  | tick
  | ret
  | start (x : T)
  | finish (x : T)
  | coAwait (x : T) (a : Await P)
  | initiateReturns
  | initiateThrows
  | invoke (p : P) (v : V)
  | cancel (x : T) (answer : Option Bool)
  | leaves (x : T) (answer : Option Bool)
  | answers (x : T) (must : Bool)
  | comesBack (x : T)

variable {E L P T V : Type*}

def State.init : State E P T V :=
  ⟨.init, fun _ => none, fun _ => .unstarted, fun _ => false, fun _ => 0, fun _ => 0, fun _ => none,
    fun _ => none, fun _ => none, fun _ => .notStarted, fun _ => false, [], fun _ => [], fun _ => [],
    fun _ _ => []⟩

variable [DecidableEq E] [DecidableEq L] [DecidableEq P] [DecidableEq T]
variable (loop : E → L) (ex : T → E)

def State.setStatus (s : State E P T V) (x : T) (st : Status P V) : State E P T V :=
  { s with status := Function.update s.status x st }

def State.setProxyStatus (s : State E P T V) (p : P) (st : ProxyStatus) : State E P T V :=
  { s with proxyStatus := Function.update s.proxyStatus p st }

/-- The event happens to the co_await of the task with this number. -/
def State.record (s : State E P T V) (x : T) (number : ℕ) (e : Event P V) : State E P T V :=
  { s with course := fun y n => if y = x ∧ n = number then s.course y n ++ [e] else s.course y n }

/-- What the executors do. -/
def State.lift (s : State E P T V) (r : Except Executor.Fault (Executor.State E)) :
    Except Fault (State E P T V) :=
  match r with
  | .ok e => .ok { s with exec := e }
  | .error .control => .error .protocol
  | .error .diverges => .error .diverges

/-! ### The tasks -/

/-- `doResume()`: the next step of the task is scheduled, with the result of `aw`. -/
def State.doResume (s : State E P T V) (x : T) (aw : Option (Pending P V)) :
    Except Fault (State E P T V) :=
  { s with
    status := Function.update s.status x (.ready aw)
    job := Function.update s.job s.exec.nextId (some x) }.lift
      (Executor.step loop s.exec (.runSoon (ex x)))

/-- The portals of a proxy that owns them are destroyed with it. -/
def State.destroyProxy (s : State E P T V) (a : Await P) : State E P T V :=
  match a.proxy with
  | some (.inline _) => { s with
    callback := fun p => if p ∈ a.portals then false else s.callback p
    parent := fun p => if p ∈ a.portals then none else s.parent p }
  | _ => s

/-- `propagateCancel()`, in the co_await with this number. -/
def State.propagateCancel (s : State E P T V) (x : T) (a : Await P) (number : ℕ) (e : Event P V) :
    State E P T V :=
  ((s.setStatus x .ended).destroyProxy a).record x number e

/-- The cancellation of the co_await is confirmed. -/
def State.confirm (s : State E P T V) (x : T) (aw : Pending P V) : State E P T V :=
  s.propagateCancel x aw.await aw.number .confirmed

/-- `await_must_resume()` of the awaiter, or of the proxy; nothing if an assertion fails. -/
def State.mustResume (s : State E P T V) (aw : Pending P V) : Option Bool :=
  match aw.await.awaiter with
  | .portal p => some (s.value p).isSome
  -- the children are still running unless one of them has had its result taken
  | .anyOf _ _ => if aw.got.isSome then some true else none

/-- The handle of the task is resumed. -/
def State.resumeTask (s : State E P T V) (x : T) : Except Fault (State E P T V) :=
  match s.status x with
  | .waiting aw =>
    if aw.cancelling then match s.mustResume aw with
      | some true => { s with requested := Function.update s.requested x true }.doResume loop ex x
          (some aw)
      | some false => .ok (s.confirm x aw)
      | none => .error .assertion
    else s.doResume loop ex x (some aw)
  | .elsewhere none => s.doResume loop ex x none
  | .elsewhere (some true) =>
    { s with requested := Function.update s.requested x true }.doResume loop ex x none
  | .elsewhere (some false) => .ok (s.setStatus x .ended)
  -- `doNothing()`
  | .ready _ => .ok s
  | .running => .ok s
  | .unstarted => .error .dangling
  | .ended => .error .dangling

/-! ### `CBPortal` -/

/-- The handles are taken out of the portals of a mux, all of whose children are over. -/
def State.wakeAll (s : State E P T V) (a : Await P) : State E P T V :=
  { s with parent := fun p => if p ∈ a.portals then none else s.parent p }

/-- A handle that the portal `p` had is resumed.  If it is that of a child of a mux, the child takes
its result, the other children are cancelled, and the mux resumes the task. -/
def State.resume (s : State E P T V) (p : P) : Handle T → Except Fault (State E P T V)
  | .task x => s.resumeTask loop ex x
  | .child x number => match s.status x with
    | .waiting aw =>
      if aw.number = number ∧ aw.got.isNone then match s.value p with
        | some v => (({ s with value := Function.update s.value p none }.wakeAll aw.await).setStatus
            x (.waiting { aw with got := some (p, v) })).resumeTask loop ex x
        | none => .error .assertion
      else .error .dangling
    | _ => .error .dangling

/-- `wakeUp()`, up to the end of the function that is passed to `capture()`. -/
def State.wakeUp (s : State E P T V) (p : P) : Except Fault (State E P T V) :=
  match s.parent p with
  | none => .ok s
  | some h => match s.executor p with
    | none => .error .dangling
    | some e => { s with
        parent := Function.update s.parent p none
        exec := s.exec.capture e }.resume loop ex p h

/-- The co_await that a callback of the portal is delivered to. -/
def State.waiter (s : State E P T V) (p : P) : Option (T × ℕ) :=
  match s.parent p with
  | none => none
  | some h => match s.status h.owner with
    | .waiting aw => if p ∈ aw.await.portals then some (h.owner, aw.number) else none
    | _ => none

/-- A callback of the portal is invoked. -/
def State.deliver (s : State E P T V) (p : P) (v : V) : State E P T V :=
  match s.waiter p with
  | none => s
  | some (x, number) => s.record x number (.delivered p v)

/-- `Callback::operator()()`. -/
def State.invoke (s : State E P T V) (p : P) (v : V) : Except Fault (State E P T V) :=
  if s.callback p then
    if (s.value p).isSome then .error .assertion
    else { s.deliver p v with
      args := Function.update s.args p (s.args p ++ [v])
      value := Function.update s.value p (some v) }.wakeUp loop ex p
  else .error .protocol

/-- `await_cancel()` of the awaiter of a task that waits: a portal resumes the handle of the task; a
mux confirms that it has been cancelled. -/
def State.cancelAwaiter (s : State E P T V) (x : T) (aw : Pending P V) :
    Except Fault (State E P T V) :=
  match aw.await.awaiter with
  | .portal p => s.wakeUp loop ex p
  | .anyOf _ _ => .ok ((s.wakeAll aw.await).confirm x aw)

/-- `await_cancel()` of a proxy whose initiate function has returned; that of a proxy of portals of the
user has a cancellation function that does nothing. -/
def State.cancelInitiated (s : State E P T V) (x : T) (aw : Pending P V) :
    Except Fault (State E P T V) :=
  match aw.await.proxy with
  | some (.inline false) => .ok s
  | some (.inline true) => (s.record x aw.number .cancelFn).cancelAwaiter loop ex x aw
  | _ => s.cancelAwaiter loop ex x aw

/-- `cancel()` of the task; elsewhere, `answer` is nothing if `await_cancel()` returns true, and what
`await_must_resume()` will answer otherwise. -/
def State.cancel (s : State E P T V) (x : T) (answer : Option Bool) :
    Except Fault (State E P T V) :=
  match s.status x with
  | .ready _ => .ok { s with requested := Function.update s.requested x true }
  | .running => .ok { s with requested := Function.update s.requested x true }
  | .waiting aw =>
    let s := (s.setStatus x (.waiting { aw with cancelling := true })).record x aw.number
      .requested
    match aw.await.proxy with
    | none => s.cancelAwaiter loop ex x aw
    | some _ => match s.proxyStatus aw.await.awaiter.first with
      | .notStarted => .error .assertion
      | .initiated => s.cancelInitiated loop ex x aw
      | _ => .ok (s.setProxyStatus aw.await.awaiter.first .cancelPending)
  | .elsewhere _ => match answer with
    | none => .ok (s.setStatus x .ended)
    | some must => .ok (s.setStatus x (.elsewhere (some must)))
  | .unstarted => .error .protocol
  | .ended => .error .protocol

/-! ### co_await -/

/-- The task is suspended on the portal. -/
def State.waitsOn (s : State E P T V) (x : T) (p : P) : Bool :=
  match s.status x with
  | .waiting aw => decide (p ∈ aw.await.portals)
  | _ => false

/-- Somebody is suspended on the portal. -/
def State.busy (s : State E P T V) (p : P) : Bool :=
  match s.parent p with
  | none => false
  | some h => s.waitsOn h.owner p

/-- The awaiter, or each child of the mux, gets a handle in its `await_suspend()`. -/
def State.suspend (s : State E P T V) (x : T) (a : Await P) (cancelling : Bool) :
    State E P T V :=
  { s with
    status := Function.update s.status x (.waiting ⟨s.awaits x, a, none, cancelling⟩)
    requested := Function.update s.requested x false
    awaits := Function.update s.awaits x (s.awaits x + 1)
    executor := fun p => if p ∈ a.portals then some (ex x) else s.executor p
    parent := fun p => if p ∈ a.portals then some (a.handle x (s.awaits x)) else s.parent p }

/-- The initiate function of a proxy is called, with the callbacks of the portals. -/
def State.initiate (s : State E P T V) (x : T) (a : Await P) (proxy : Proxy) (number : ℕ)
    (requested : Bool) : State E P T V :=
  { s.record x number (.initiated proxy) with
    callback := fun p => if p ∈ a.portals then true else s.callback p
    initiating := ⟨x, number, s.exec.stack.length, requested, false⟩ :: s.initiating }

/-- The first portal that is ready. -/
def State.firstReady (s : State E P T V) (a : Await P) : Option (P × V) :=
  a.portals.findSome? fun p => (s.value p).map fun v => (p, v)

/-- `await_resume()`, and the task gets the value. -/
def State.receive (s : State E P T V) (p : P) (v : V) : State E P T V :=
  { s with
    value := Function.update s.value p none
    results := Function.update s.results p (s.results p ++ [v]) }

/-- The co_await is cancelled by `await_early_cancel()`. -/
def State.skip (s : State E P T V) (x : T) (a : Await P) : State E P T V :=
  { s with awaits := Function.update s.awaits x (s.awaits x + 1) }.propagateCancel x a
    (s.awaits x) .skipped

/-- The portal has just been created. -/
def State.fresh (s : State E P T V) (p : P) : Bool :=
  (s.value p).isNone && (s.parent p).isNone && !s.callback p

/-- The task awaits something that has to do with portals. -/
def State.coAwait (s : State E P T V) (x : T) (a : Await P) : Except Fault (State E P T V) :=
  if (∃ p ∈ a.portals, s.busy p = true) ∨ ¬ a.portals.Nodup then .error .protocol
  else match a.proxy with
    | none =>
      if s.requested x then .ok (s.skip x a)
      else match s.firstReady a with
        | some (p, v) => .ok (s.receive p v)
        | none => .ok (s.suspend ex x a false)
    | some .external =>
      let s := s.setProxyStatus a.awaiter.first
        (if s.requested x then .cancelPending else .scheduled)
      if (s.firstReady a).isSome then .error .assertion
      else .ok ((s.suspend ex x a (s.requested x)).initiate x a .external (s.awaits x)
        (s.requested x))
    | some (.inline c) =>
      if ∃ p ∈ a.portals, s.fresh p = false then .error .protocol
      else if s.requested x then .ok (s.skip x a)
      else
        let s := s.setProxyStatus a.awaiter.first .scheduled
        .ok ((s.suspend ex x a false).initiate x a (.inline c) (s.awaits x) false)

/-- The initiate function in control. -/
def State.initiator (s : State E P T V) : Option (Initiation T × List (Initiation T)) :=
  match s.initiating with
  | [] => none
  | i :: rest => if i.depth = s.exec.stack.length then some (i, rest) else none

/-- The initiate function returns, in `await_suspend()` of the proxy. -/
def State.initiateReturns (s : State E P T V) : Except Fault (State E P T V) :=
  match s.initiator with
  | none => .error .protocol
  | some (i, rest) =>
    let s := { s.record i.task i.number .returned with initiating := rest }
    if i.completed then .ok s
    else match s.status i.task with
      | .waiting aw =>
        if aw.number = i.number then
          let first := aw.await.awaiter.first
          let wasCancelled := s.proxyStatus first = .cancelPending
          let s := s.setProxyStatus first .initiated
          if wasCancelled ∧ (s.parent first).isSome then
            s.cancelInitiated loop ex i.task aw
          else .ok s
        else .error .dangling
      | .ready (some aw) =>
        if aw.number = i.number then .ok (s.setProxyStatus aw.await.awaiter.first .initiated)
        else .error .dangling
      | _ => .error .dangling

/-- The initiate function throws, and so does `await_suspend()`. -/
def State.initiateThrows (s : State E P T V) : Except Fault (State E P T V) :=
  match s.initiator with
  | none => .error .protocol
  | some (i, rest) =>
    if i.completed then .error .dangling
    else match s.status i.task with
      | .waiting aw =>
        if aw.number = i.number then
          .ok ({ s.record i.task i.number .threw with
            initiating := rest
            status := Function.update s.status i.task .running
            requested := Function.update s.requested i.task i.requested }.destroyProxy aw.await)
        else .error .dangling
      | _ => .error .dangling

/-- The task takes the result of its co_await. -/
def State.takeResult (s : State E P T V) (x : T) (aw : Pending P V) :
    Except Fault (State E P T V) :=
  let s := { s with
    status := Function.update s.status x .running
    initiating := s.initiating.map fun i : Initiation T =>
      if i.task = x ∧ i.number = aw.number then { i with completed := true } else i }
  match aw.await.awaiter with
  | .portal p => match s.value p with
    | some v => .ok (((s.receive p v).destroyProxy aw.await).record x aw.number (.resumed p v))
    | none => .error .assertion
  | .anyOf _ _ => match aw.got with
    | some (p, v) => .ok (({ s with
        results := Function.update s.results p (s.results p ++ [v]) }.destroyProxy aw.await).record x
        aw.number (.resumed p v))
    | none => .error .assertion

/-- The executor starts a step of the task. -/
def State.begins (s : State E P T V) (x : T) : Except Fault (State E P T V) :=
  match s.status x with
  | .ready none => .ok (s.setStatus x .running)
  | .ready (some aw) => s.takeResult x aw
  | _ => .error .assertion

/-! ### The machine -/

/-- The callback that the next iteration of the loop in control executes. -/
def nextCallback (s : Executor.State E) : Option ℕ :=
  match s.stack with
  | .drain _ tasks _ _ :: _ => match s.lists tasks with
    | .callback id :: _ => some id
    | _ => none
  | _ => none

/-- The loop in control executes an iteration. -/
def State.tick (s : State E P T V) : Except Fault (State E P T V) :=
  match (nextCallback s.exec).bind s.job with
  | none => s.lift (Executor.step loop s.exec .tick)
  | some x => (s.lift (Executor.step loop s.exec .tick)).bind fun s => s.begins x

/-- The callback that has control. -/
def currentCallback (s : Executor.State E) : Option ℕ :=
  match s.stack with
  | .callback id _ :: _ => some id
  | _ => none

/-- A callback returns, or the function that was passed to `capture()`.  A step of a task does when
the task is suspended or has ended. -/
def State.ret (s : State E P T V) : Except Fault (State E P T V) :=
  match (currentCallback s.exec).bind s.job with
  | none => s.lift (Executor.step loop s.exec .ret)
  | some x =>
    if (s.status x).isRunning ∨ s.initiator.isSome then .error .protocol
    else { s with steps := Function.update s.steps x (s.steps x + 1) }.lift
      (Executor.step loop s.exec .ret)

/-- The coroutine of the task has control. -/
def State.runs (s : State E P T V) (x : T) : Bool :=
  (currentCallback s.exec).bind s.job = some x && (s.status x).isRunning

/-- The next step of a task that is about to take its result is the first one in the list. -/
def State.isUrgent (s : State E P T V) : List (Executor.Task E) → Bool
  | .callback id :: _ => match s.job id with
    | none => false
    | some x => (s.status x).isSuspended
  | _ => false

/-- Code outside the executors and the portals has control: the event loop, a task or another
callback, an initiate function, what a task awaits elsewhere, a function that is passed to
`capture()`, what is resumed when a task has ended.  If a portal has resumed the handle of a task, the
function that it has passed to `capture()` does nothing more. -/
def State.userCode (s : State E P T V) : Bool :=
  match s.exec.stack with
  | [] => true
  | .drain _ _ _ _ :: _ => false
  | .capture e k _ :: _ => !s.isUrgent (s.exec.lists (.tmp e k))
  | .callback id _ :: _ => match s.job id with
    | none => true
    | some x => !(s.status x).isSuspended || s.initiator.isSome

/-- What the code in control does. -/
def State.userStep (s : State E P T V) : Action E P T V → Except Fault (State E P T V)
  | .runSoon e => s.lift (Executor.step loop s.exec (.runSoon e))
  | .drain e => s.lift (Executor.step loop s.exec (.drain e))
  | .capture e => s.lift (Executor.step loop s.exec (.capture e))
  | .start x => match s.status x with
    | .unstarted => s.doResume loop ex x none
    | _ => .error .protocol
  | .finish x => if s.runs x then .ok (s.setStatus x .ended) else .error .protocol
  | .coAwait x a => if s.runs x then s.coAwait ex x a else .error .protocol
  | .initiateReturns => s.initiateReturns loop ex
  | .initiateThrows => s.initiateThrows
  | .invoke p v => s.invoke loop ex p v
  | .cancel x answer => s.cancel loop ex x answer
  -- the task awaits something else; `answer` is that of `await_early_cancel()`, as in `cancel()`
  | .leaves x answer =>
    if s.runs x then
      let s' := { s with requested := Function.update s.requested x false }
      if s.requested x then match answer with
        | none => .ok (s'.setStatus x .ended)
        | some must => .ok (s'.setStatus x (.elsewhere (some must)))
      else .ok (s'.setStatus x (.elsewhere none))
    else .error .protocol
  | .answers x must => match s.status x with
    | .elsewhere (some _) => .ok (s.setStatus x (.elsewhere (some must)))
    | _ => .error .protocol
  | .comesBack x => match s.status x with
    | .elsewhere _ => s.resumeTask loop ex x
    | _ => .error .protocol
  | .tick => .error .protocol
  | .ret => .error .protocol

/-- One action. -/
def step (s : State E P T V) (a : Action E P T V) : Except Fault (State E P T V) :=
  match a with
  | .tick => s.tick loop
  | .ret => s.ret loop
  | a => if s.userCode then s.userStep loop ex a else .error .protocol

end Corral.CBPortal
