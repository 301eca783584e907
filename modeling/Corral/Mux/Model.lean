import Corral.Lib.Machine

/-!
# `MuxHelper`, `MuxBase`, `MuxTuple`: the model

`corral/detail/wait.h`: `anyOf()`, `mostOf()` and `allOf()` over `n` children, from
`await_suspend()` to the resumption of the parent, with cancellation by a sibling and from
outside.

The children's awaiters are not modelled: what they answer comes with the actions.  A call into
an awaiter that may run other code (`await_suspend()`, `await_cancel()`) is a frame on a stack,
and until it returns any suspended child may resume its handle, or the parent may cancel the mux.
The loops over the children that make these calls are frames too, and the action `next`
executes their next iteration.

The other calls into an awaiter (`await_early_cancel()`, `await_ready()`, `await_must_resume()`,
`await_resume()`) are taken to run no other code; in `Corral.Wait.Model` they are frames, too.

* `Kind`: what is known at compile time, which is what `await_cancel()` and `await_must_resume()` of the
  mux may rely on;
* `Answers`: what the awaiter of a child answers to the queries of one iteration;
* `muxInvoke` is `MuxBase::invoke()`, `helperInvoke` is `MuxHelper::invoke()`;
* `resumed` records the states of the children whenever the parent is resumed, `invoked` how
  often `MuxBase::invoke()` has been called on behalf of each child.
-/

namespace Corral.Mux

/-- `MuxHelper::State`. -/
inductive HelperState
  | notStarted
  | cancellationPending
  | running
  | cancelling
  | cancelled
  | ready
  | succeeded
  | failed
  deriving DecidableEq

/-- `Succeeded`, `Failed` or `Cancelled`. -/
def HelperState.terminal : HelperState → Bool
  | .cancelled => true
  | .succeeded => true
  | .failed => true
  | _ => false

/-- Who has called `internalCancel()`. -/
inductive Cause
  | invoke
  | earlyCancel
  | awaitCancel
  deriving DecidableEq

/-- What is known of a mux at compile time: whether it is done on the first child that is ready
(`minReady() == 1` of a tuple, `doneOnFirstReady` of a range), and which children are `Skippable` and
`Abortable`. -/
structure Kind (n : ℕ) where
  doneOnFirstReady : Bool
  skippable : Fin n → Bool
  abortable : Fin n → Bool

/-- `muxIsSkippable()`. -/
def Kind.isSkippable {n : ℕ} (m : Kind n) : Bool := decide (∀ j, m.skippable j = true)

/-- `muxIsAbortable()`. -/
def Kind.isAbortable {n : ℕ} (m : Kind n) : Bool :=
  m.doneOnFirstReady && decide (∀ j, m.abortable j = true)

/-- `await_early_cancel()` of a `Skippable` mux and `await_cancel()` of an `Abortable` one rely on all
children being cancelled. -/
def Kind.relies {n : ℕ} (m : Kind n) : Cause → Bool
  | .invoke => false
  | .earlyCancel => m.isSkippable
  | .awaitCancel => m.isAbortable

/-- The calls in progress. -/
inductive Frame
  /-- the loop of `await_suspend()`, with the next child -/
  | suspendLoop (j : ℕ)
  /-- `await_suspend()` of a child's awaiter, with the resumption of what it returns -/
  | awaitSuspend (j : ℕ)
  /-- the loop of `internalCancel()`, with the next child and the conjunction so far -/
  | cancelLoop (cause : Cause) (j : ℕ) (all : Bool)
  /-- `await_cancel()` of a child's awaiter -/
  | awaitCancel (j : ℕ)
  deriving DecidableEq

/-- Why an action has no successor: an assertion fails, or the awaiter protocol does not allow
it in this state. -/
inductive Fault
  | assertion
  | protocol
  deriving DecidableEq

/-- What the awaiter of a child answers: `await_ready()`, `await_early_cancel()`,
`await_must_resume()`, `await_resume()`. -/
structure Answers (V Err : Type*) where
  ready : Bool
  earlyCancel : Bool
  mustResume : Bool
  result : Except Err V

/-- A mux with its children. -/
structure State (n : ℕ) (V Err : Type*) where
  child : Fin n → HelperState
  storage : Fin n → Option V
  count : ℕ
  error : Option Err
  bound : Bool
  muted : Bool
  stack : List Frame
  resumed : List (Fin n → HelperState)
  invoked : Fin n → ℕ
  returned : List (Cause × Bool)

inductive Action (n : ℕ) (V Err : Type*)
  | earlyCancel
  | awaitSuspend
  | awaitCancel
  | next (ans : Answers V Err)
  | resume (j : Fin n) (ans : Answers V Err)
  | suspendReturns
  | suspendThrows (err : Err)
  | cancelReturns (done : Bool)

variable {n : ℕ} {V Err : Type*}

def State.init : State n V Err :=
  ⟨fun _ => .notStarted, fun _ => none, 0, none, false, false, [], [], fun _ => 0, []⟩

def State.setState (s : State n V Err) (j : Fin n) (st : HelperState) : State n V Err :=
  { s with child := Function.update s.child j st }

/-- `parent_.resume()`; while `await_cancel()` is cancelling things, `parent_` does nothing. -/
def State.resumeParent (s : State n V Err) : State n V Err :=
  if s.muted then s else { s with resumed := s.resumed ++ [s.child] }

def State.enter (s : State n V Err) (f : Frame) : State n V Err := { s with stack := f :: s.stack }

section Code

variable (m : Kind n) (minReady : ℕ)

/-- `MuxBase::invoke(err)`, called on behalf of the child `j`, up to the loop of
`internalCancel()`. -/
def State.muxInvoke (s : State n V Err) (j : Fin n) (err : Option Err) : State n V Err :=
  let i := s.count + 1
  let firstFail := err.isSome && s.error.isNone
  let s₁ := { s with
    error := if firstFail then err else s.error
    invoked := Function.update s.invoked j (s.invoked j + 1) }
  if i = n then { s₁ with count := i }.resumeParent
  else if firstFail || i == minReady then
    { s₁ with count := i - 1 }.enter (.cancelLoop .invoke 0 true)
  else { s₁ with count := i }

/-- `MuxHelper::reportResult()`. -/
def State.reportResult (s : State n V Err) (j : Fin n) (ans : Answers V Err) : State n V Err :=
  match ans.result with
  | .ok v =>
    { s.setState j .succeeded with
      storage := Function.update s.storage j (some v) }.muxInvoke minReady j none
  | .error err => (s.setState j .failed).muxInvoke minReady j (some err)

/-- `MuxHelper::invoke()`. -/
def State.helperInvoke (s : State n V Err) (j : Fin n) (ans : Answers V Err) :
    Except Fault (State n V Err) :=
  match s.child j with
  | .cancelling =>
    if ans.mustResume then .ok (s.reportResult minReady j ans)
    else .ok ((s.setState j .cancelled).muxInvoke minReady j none)
  | .running => .ok (s.reportResult minReady j ans)
  | .ready => .ok (s.reportResult minReady j ans)
  | _ => .error .assertion

/-- `MuxHelper::kickOff()`, up to the `await_suspend()` of the awaiter. -/
def State.kickOff (s : State n V Err) (j : Fin n) (ans : Answers V Err) :
    Except Fault (State n V Err) :=
  -- The state is set first: the awaiter may resume the handle within `await_suspend()`.
  let s' := s.setState j (if s.child j = .cancellationPending then .cancelling else .running)
  if ans.ready then s'.helperInvoke minReady j ans else .ok (s'.enter (.awaitSuspend j))

/-- `MuxHelper::suspend()`. -/
def State.suspend (s : State n V Err) (j : Fin n) (ans : Answers V Err) :
    Except Fault (State n V Err) :=
  match s.child j with
  | .notStarted => s.kickOff minReady j ans
  | .cancellationPending => s.kickOff minReady j ans
  | .cancelled => .ok (s.muxInvoke minReady j none)
  | _ => .error .assertion

/-- `MuxHelper::cancel()`, up to the `await_cancel()` of the awaiter; the loop of
`internalCancel()` that has called it goes on with the next child. -/
def State.cancel (s : State n V Err) (cause : Cause) (all : Bool) (j : Fin n)
    (ans : Answers V Err) : State n V Err :=
  let loop (b : Bool) := s.enter (.cancelLoop cause (j + 1) (all && b))
  match s.child j with
  | .notStarted =>
    if ans.earlyCancel then
      -- Before `bind()`, `invoke()` is left to `suspend()`.
      let s' := (loop true).setState j .cancelled
      if s.bound then s'.muxInvoke minReady j none else s'
    else (loop false).setState j .cancellationPending
  | .running => ((loop true).setState j .cancelling).enter (.awaitCancel j)
  | .cancelled => loop true
  | _ => loop false

/-- After `internalCancel()`: the rest of `invoke()`, of `await_early_cancel()` or of `await_cancel()`. -/
def State.afterCancel (s : State n V Err) (cause : Cause) (all : Bool) : State n V Err :=
  match cause with
  | .invoke =>
    if s.count + 1 = n then { s with count := s.count + 1 }.resumeParent
    else { s with count := s.count + 1 }
  | .earlyCancel => { s with returned := s.returned ++ [(.earlyCancel, all)] }
  | .awaitCancel =>
    let s' := { s with muted := false, returned := s.returned ++ [(.awaitCancel, all)] }
    if all then s' else if s.count = n then s'.resumeParent else s'

/-- The end of `internalCancel()`: back in `invoke()`, in `await_early_cancel()` or in
`await_cancel()`. -/
def State.cancelled (s : State n V Err) (cause : Cause) (all : Bool) : Except Fault (State n V Err) :=
  if m.relies cause && !all then .error .assertion else .ok (s.afterCancel cause all)

/-- One iteration of the loop in control. -/
def State.next (s : State n V Err) (ans : Answers V Err) : Except Fault (State n V Err) :=
  match s.stack with
  | .suspendLoop j :: below =>
    if h : j < n then { s with stack := .suspendLoop (j + 1) :: below }.suspend minReady ⟨j, h⟩ ans
    else .ok { s with stack := below }
  | .cancelLoop cause j all :: below =>
    if h : j < n then .ok ({ s with stack := below }.cancel minReady cause all ⟨j, h⟩ ans)
    else { s with stack := below }.cancelled m cause all
  | _ => .error .protocol

/-- `await_cancel()` of a child's awaiter returns.  It may return true only if it has not
resumed the handle. -/
def State.cancelReturns (s : State n V Err) (done : Bool) : Except Fault (State n V Err) :=
  match s.stack with
  | .awaitCancel j :: .cancelLoop cause k all :: below =>
    if h : j < n then
      if done then
        if s.child ⟨j, h⟩ = .cancelling then
          .ok ({ s with stack := .cancelLoop cause k all :: below }.setState ⟨j, h⟩ .cancelled
            |>.muxInvoke minReady ⟨j, h⟩ none)
        else .error .protocol
      else
        -- The handle may have been resumed in the meantime.
        let now := all && decide (s.child ⟨j, h⟩ = .cancelled)
        .ok { s with stack := .cancelLoop cause k now :: below }
    else .error .protocol
  | _ => .error .protocol

/-- `await_suspend()` of a child's awaiter throws.  It may do so only if it has not resumed the
handle. -/
def State.suspendThrows (s : State n V Err) (err : Err) : Except Fault (State n V Err) :=
  match s.stack with
  | .awaitSuspend j :: below =>
    if h : j < n then
      if s.child ⟨j, h⟩ = .running ∨ s.child ⟨j, h⟩ = .cancelling then
        .ok ({ s with stack := below }.setState ⟨j, h⟩ .failed
          |>.muxInvoke minReady ⟨j, h⟩ (some err))
      else .error .protocol
    else .error .protocol
  | _ => .error .protocol

/-- Other code has control: the awaiter of a child, or nobody. -/
def othersInControl : List Frame → Bool
  | [] => true
  | .awaitSuspend _ :: _ => true
  | .awaitCancel _ :: _ => true
  | _ => false

/-- One action.  A child's handle is resumed at most once, after the child was started. -/
def step (s : State n V Err) : Action n V Err → Except Fault (State n V Err)
  | .earlyCancel =>
    if s.bound = false ∧ s.stack = [] then .ok (s.enter (.cancelLoop .earlyCancel 0 true))
    else .error .protocol
  | .awaitSuspend =>
    if s.bound = false ∧ s.stack = [] then .ok ({ s with bound := true }.enter (.suspendLoop 0))
    else .error .protocol
  | .awaitCancel =>
    if s.bound ∧ s.muted = false ∧ othersInControl s.stack then
      .ok ({ s with muted := true }.enter (.cancelLoop .awaitCancel 0 true))
    else .error .protocol
  | .next ans => s.next m minReady ans
  | .resume j ans =>
    if othersInControl s.stack ∧ (s.child j = .running ∨ s.child j = .cancelling) then
      s.helperInvoke minReady j ans
    else .error .protocol
  | .suspendReturns => match s.stack with
    | .awaitSuspend _ :: below => .ok { s with stack := below }
    | _ => .error .protocol
  | .suspendThrows err => s.suspendThrows minReady err
  | .cancelReturns done => s.cancelReturns minReady done

end Code

end Corral.Mux
