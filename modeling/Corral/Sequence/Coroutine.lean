import Corral.Sequence.Model

/-!
# The coroutine that a `Sequence` stands for

`{ auto x = co_await first; co_return co_await fn(x); }`, awaited by a task in place of
`first | then(fn)`: the functions of `BasePromise` in `corral/detail/Promise.h` and of
`corral/detail/TaskAwaiter.h`, with the same awaiters, the same actions and the same events as in the
model of the combinator.
-/

namespace Corral.Sequence.Coroutine

/-- The place in the body: before it starts, in one of the two co_await expressions, in `fn`, or
after its end, with what the parent has been told. -/
inductive Body (V W E : Type*)
  | initial
  | first
  | fn (x : V)
  | second (a : Awaiter W E)
  | done (r : Result W E)

/-- The promise of the coroutine, and the task that awaits it.  `cancelRequested` is `cancelState_`;
`afterCancel` and `parentAfterCancel` say that the handle of the coroutine, and the one of the task,
run `doResumeAfterCancel()`. -/
structure State (V W E : Type*) where
  body : Body V W E
  cancelRequested : Bool
  afterCancel : Bool
  parentAfterCancel : Bool
  pause : Option Pause
  started : Bool
  log : List (Event V W E)

variable {V W E : Type*}

def State.init : State V W E := ⟨.initial, false, false, false, none, false, []⟩

def State.record (s : State V W E) (ev : Event V W E) : State V W E :=
  { s with log := s.log ++ [ev] }

/-- The awaiter suspends. -/
def State.suspend (s : State V W E) (i : Which) : State V W E :=
  { s with pause := some (.suspended true) }.record (.suspend i)

/-- `continuation()` of the `TaskAwaiter`: the handle of the task is resumed, and the task takes the
result. -/
def State.continuation (s : State V W E) (r : Result W E) : Except Fault (State V W E) :=
  let s := { s with body := .done r }
  match r with
  -- `await_must_resume()` is false
  | .cancelled =>
    if s.parentAfterCancel then .ok (s.record (.outcome .cancelled)) else .error .assertion
  | _ => .ok (s.record (.outcome r))

/-- `propagateCancel()`. -/
def State.propagateCancel (s : State V W E) : Except Fault (State V W E) :=
  s.continuation .cancelled

section Code

variable (first : Awaiter V E) (fn : V → Except E (Awaiter W E))

/-- The awaiter of the co_await in progress. -/
def State.current (s : State V W E) : Option (Which × BasePromise.Answers) :=
  match s.body with
  | .first => some (.first, first.toAnswers)
  | .second a => some (.second, a.toAnswers)
  | _ => none

/-- The body is resumed: it calls `await_resume()`, and goes on. -/
def State.doResume (s : State V W E) : Except Fault (State V W E) :=
  match s.body with
  | .first =>
    let s := s.record (.resumedFirst first.result)
    match first.result with
    | .ok x => .ok ({ s with body := .fn x }.record (.fn x))
    | .error e => s.continuation (.threw e)
  | .second a =>
    let s := s.record (.resumedSecond a.result)
    match a.result with
    | .ok w => s.continuation (.value w)
    | .error e => s.continuation (.threw e)
  | _ => .error .protocol

/-- `doResumeAfterCancel()`. -/
def State.doResumeAfterCancel (s : State V W E) (i : Which) (ans : BasePromise.Answers) :
    Except Fault (State V W E) :=
  let s := s.record (.mustResume i ans.mustResume)
  if ans.mustResume then { s with cancelRequested := true }.doResume first else s.propagateCancel

/-- `co_await`: `hookAwaitSuspend()` if the cancellation is pending, or if the awaiter is not ready. -/
def State.coAwait (s : State V W E) (i : Which) (ans : BasePromise.Answers) :
    Except Fault (State V W E) :=
  if s.cancelRequested then
    let s := { s with cancelRequested := false }.record (.earlyCancel i ans.earlyCancel)
    if ans.earlyCancel then s.propagateCancel
    else
      let s := { s with afterCancel := true }.record (.ready i ans.ready)
      if ans.ready then s.doResumeAfterCancel first i ans else .ok (s.suspend i)
  else
    let s := s.record (.ready i ans.ready)
    if ans.ready then s.doResume first else .ok ({ s with afterCancel := false }.suspend i)

/-- The task begins its co_await; `await_early_cancel()` of the `TaskAwaiter` is `cancel()` of the
promise, and `await_suspend()` starts the coroutine. -/
def State.start (s : State V W E) (early : Bool) : Except Fault (State V W E) :=
  State.coAwait first { s with
    started := true
    body := .first
    cancelRequested := early
    parentAfterCancel := early } .first first.toAnswers

/-- `fn` has returned an awaitable, or has thrown. -/
def State.fnReturns (s : State V W E) (x : V) : Except Fault (State V W E) :=
  match fn x with
  | .error e => (s.record (.fnThrew e)).continuation (.threw e)
  | .ok a => { s with body := .second a }.coAwait first .second a.toAnswers

/-- `cancel()` of the task, which calls `cancel()` of the promise; it is called at a stage: while an
awaiter is suspended, or `fn` is in progress. -/
def State.cancel (s : State V W E) : Except Fault (State V W E) :=
  let s' := { s with parentAfterCancel := true }.record .requested
  match s.pause, s.current first, s.body with
  | some (.suspended entering), some (i, _), _ =>
    .ok ({ s' with afterCancel := true, pause := some (.cancelling entering) }.record (.cancel i))
  | none, _, .fn _ => .ok { s' with cancelRequested := true }
  | _, _, _ => .error .protocol

/-- The exception of an `await_suspend()` is thrown into the body, and leaves it. -/
def State.suspendThrows (s : State V W E) (e : E) : Except Fault (State V W E) :=
  match s.current first with
  | some (i, _) => ({ s with pause := none }.record (.suspendThrew i e)).continuation (.threw e)
  | none => .error .protocol

/-- The handle of the coroutine is resumed. -/
def State.resumes (s : State V W E) : Except Fault (State V W E) :=
  let s := { s with pause := none }
  match s.current first with
  | some (i, ans) => if s.afterCancel then s.doResumeAfterCancel first i ans else s.doResume first
  | none => .error .protocol

/-- One action. -/
def step (s : State V W E) : Action E → Except Fault (State V W E)
  | .start early => if s.started then .error .protocol else s.start first early
  | .suspendReturns => match s.pause with
    | some (.suspended true) => .ok { s with pause := some (.suspended false) }
    | _ => .error .protocol
  | .suspendThrows e => match s.pause with
    | some (.suspended true) => s.suspendThrows first e
    | _ => .error .protocol
  | .resumes => match s.pause with
    | some _ => s.resumes first
    | none => .error .protocol
  | .cancel => if s.parentAfterCancel then .error .protocol else s.cancel first
  | .cancelReturns done => match s.pause with
    | some (.cancelling entering) =>
      if done then { s with pause := none }.propagateCancel
      else .ok { s with pause := some (.suspended entering) }
    | _ => .error .protocol
  | .fnReturns => match s.body with
    | .fn x => s.fnReturns first fn x
    | _ => .error .protocol

end Code

end Corral.Sequence.Coroutine
