import Corral.Mux.Model
import Corral.Detail.AwaiterStateChecker

/-!
# A mux, its children and its parent: the model

`corral/detail/wait.h`, from the first call that the parent makes to the result: with the awaiters
of the children, whose calls are recorded, with both ways to the result (`await_suspend()`, or
`handleResumeWithoutSuspend()` if enough children are ready), and with the cases in which the types
of the children say that a cancellation always succeeds.

A call of an awaiter that may run other code is a frame on a stack, and so is the resumption of the
parent's handle; meanwhile the children that are suspended may resume their handles, and the parent
may act.  The queries (`await_ready()`, `await_must_resume()`) run no other code; what they answer
comes with the actions.

* `Event`: what happens between the mux and the awaiter of a child;
* `Kind`: the kind of the mux, and which children are `Skippable` or `Abortable`;
* `State.suspend`, `State.cancel`, `State.helperInvoke`, `State.reportImmediateResult` are those of
  `MuxHelper`, `State.muxInvoke` is `MuxBase::invoke()`.

The mux is not destroyed here: what is said about it afterwards would be about nothing.
-/

namespace Corral.Wait

open AwaiterStateChecker
open Mux (HelperState Cause)

/-- The mux calls the awaiter of a child; or the awaiter confirms its cancellation, resumes its
handle, or throws out of `await_suspend()`. -/
inductive Event
  | earlyCancel
  | suspend
  | cancel
  | mustResume (answer : Bool)
  | resume
  | confirmed
  | resumed
  | threw
  deriving DecidableEq

/-- The awaiter of the child has been suspended, and still has its handle. -/
def holds (l : List Event) : Bool :=
  l.contains .suspend && !l.contains .confirmed && !l.contains .resumed && !l.contains .threw

inductive Combiner
  | anyOf
  | mostOf
  | allOf
  deriving DecidableEq

/-- A mux over `n` children, as a tuple or as a range. -/
structure Kind (n : ℕ) where
  combiner : Combiner
  range : Bool
  skippable : Fin n → Bool
  abortable : Fin n → Bool

/-- The calls in progress. -/
inductive Frame
  /-- the loop of `await_suspend()`, with the next child -/
  | suspendLoop (j : ℕ)
  /-- `await_suspend()` of a child's awaiter, with the resumption of what it returns -/
  | awaitSuspend (j : ℕ)
  /-- the loop of `internalCancel()`, with the next child and the conjunction so far -/
  | cancelLoop (cause : Cause) (j : ℕ) (all : Bool)
  /-- `await_early_cancel()` of a child's awaiter -/
  | earlyCancel (j : ℕ)
  /-- `await_cancel()` of a child's awaiter -/
  | awaitCancel (j : ℕ)
  /-- `await_resume()` of a child's awaiter -/
  | awaitResume (j : ℕ)
  /-- the loop of `handleResumeWithoutSuspend()` over the children other than the first ready one -/
  | reportLoop (j first : ℕ)
  /-- the resumption of the parent's handle -/
  | parent
  deriving DecidableEq

/-- Why an action has no successor: an assertion fails, or the action is not possible in this
state. -/
inductive Fault
  | assertion
  | protocol
  deriving DecidableEq

/-- A mux with its children.  `parent` once `parent_` is the parent's handle, `muted` while
`await_cancel()` has replaced it. -/
structure State (n : ℕ) (V Err : Type*) where
  child : Fin n → HelperState
  storage : Fin n → Option V
  ready : Fin n → Bool
  events : Fin n → List Event
  count : ℕ
  error : Option Err
  bound : Bool
  parent : Bool
  muted : Bool
  checker : Checker
  stack : List Frame
  resumed : List (Fin n → HelperState)
  returned : List (Cause × Bool)

inductive Action (n : ℕ) (V Err : Type*)
  | next (must : Bool)
  | becomesReady (j : Fin n)
  | resumes (j : Fin n) (must : Bool)
  | suspendReturns
  | suspendThrows (err : Err)
  | earlyCancelReturns (done : Bool)
  | cancelReturns (done : Bool)
  | resumeReturns (result : Except Err V)
  | parentReturns
  | awaitReady
  | awaitEarlyCancel
  | awaitSetExecutor
  | awaitSuspend
  | awaitCancel
  | awaitMustResume (must : Fin n → Bool)
  | awaitResume (must : Bool)

variable {n : ℕ} {V Err : Type*}

def State.init : State n V Err :=
  ⟨fun _ => .notStarted, fun _ => none, fun _ => false, fun _ => [], 0, none, false, false, false,
    .init, [], [], []⟩

def State.setState (s : State n V Err) (j : Fin n) (st : HelperState) : State n V Err :=
  { s with child := Function.update s.child j st }

def State.record (s : State n V Err) (j : Fin n) (e : Event) : State n V Err :=
  { s with events := Function.update s.events j (s.events j ++ [e]) }

def State.enter (s : State n V Err) (f : Frame) : State n V Err := { s with stack := f :: s.stack }

/-! ### The types -/

/-- `minReady()`. -/
def Kind.minReady (m : Kind n) : ℕ :=
  match m.combiner with
  | .anyOf => if m.range then min 1 n else 1
  | _ => n

/-- `muxIsSkippable()`. -/
def Kind.isSkippable (m : Kind n) : Bool := decide (∀ j, m.skippable j = true)

/-- `muxIsAbortable()`. -/
def Kind.isAbortable (m : Kind n) : Bool :=
  (if m.range then m.combiner = .anyOf else m.minReady = 1) && decide (∀ j, m.abortable j = true)

/-! ### `MuxBase` -/

/-- `parent_.resume()`. -/
def State.resumeParent (s : State n V Err) : State n V Err :=
  if s.parent ∧ s.muted = false then { s with
    resumed := s.resumed ++ [s.child]
    checker := s.checker.resumed.getD s.checker
    stack := .parent :: s.stack }
  else s

section Code

variable (m : Kind n)

/-- `MuxBase::invoke(err)`, up to the loop of `internalCancel()`. -/
def State.muxInvoke (s : State n V Err) (err : Option Err) : State n V Err :=
  let i := s.count + 1
  let firstFail := err.isSome && s.error.isNone
  let s := { s with error := if firstFail then err else s.error }
  if i = n then { s with count := i }.resumeParent
  else if firstFail || i == m.minReady then
    { s with count := i - 1 }.enter (.cancelLoop .invoke 0 true)
  else { s with count := i }

/-! ### `MuxHelper` -/

/-- `ready()`, where `ready` is what `await_ready()` of the awaiter answers; nothing if an assertion
fails. -/
def isReady (ready : Bool) : HelperState → Option Bool
  | .notStarted => some ready
  | .running => none
  | .cancelling => none
  | .cancellationPending => some false
  | .cancelled => some false
  | .ready => some true
  | .succeeded => some true
  | .failed => some true

/-- `reportResult()`, up to `await_resume()`. -/
def State.reportResult (s : State n V Err) (j : Fin n) : State n V Err :=
  ((s.setState j .succeeded).record j .resume).enter (.awaitResume j)

/-- `await_resume()` returns a value, or an error, or throws. -/
def State.resumeReturns (s : State n V Err) (result : Except Err V) :
    Except Fault (State n V Err) :=
  match s.stack with
  | .awaitResume j :: below =>
    if h : j < n then
      let s := { s with stack := below }
      match result with
      | .ok v => .ok ({ s with
        storage := Function.update s.storage ⟨j, h⟩ (some v) }.muxInvoke m none)
      | .error err => .ok ((s.setState ⟨j, h⟩ .failed).muxInvoke m (some err))
    else .error .protocol
  | _ => .error .protocol

/-- `MuxHelper::invoke()`. -/
def State.helperInvoke (s : State n V Err) (j : Fin n) (must : Bool) :
    Except Fault (State n V Err) :=
  match s.child j with
  | .cancelling =>
    let s := s.record j (.mustResume must)
    if must then .ok (s.reportResult j) else .ok ((s.setState j .cancelled).muxInvoke m none)
  | .running => .ok (s.reportResult j)
  | .ready => .ok (s.reportResult j)
  | _ => .error .assertion

/-- `kickOff()`, up to `await_suspend()` of the awaiter. -/
def State.kickOff (s : State n V Err) (j : Fin n) (must : Bool) : Except Fault (State n V Err) :=
  -- The state is set first: the awaiter may resume the handle within `await_suspend()`.
  let s := s.setState j (if s.child j = .cancellationPending then .cancelling else .running)
  if s.ready j then s.helperInvoke m j must
  else .ok ((s.record j .suspend).enter (.awaitSuspend j))

/-- `MuxHelper::suspend()`. -/
def State.suspend (s : State n V Err) (j : Fin n) (must : Bool) : Except Fault (State n V Err) :=
  match s.child j with
  | .notStarted => s.kickOff m j must
  | .cancellationPending => s.kickOff m j must
  | .cancelled => .ok (s.muxInvoke m none)
  | _ => .error .assertion

/-- `MuxHelper::cancel()`, called by the loop of `internalCancel()`, up to the call of the awaiter;
the loop goes on with the next child. -/
def State.cancel (s : State n V Err) (cause : Cause) (all : Bool) (j : Fin n) : State n V Err :=
  match s.child j with
  | .notStarted =>
    -- The state is left as it is until the awaiter has answered.
    ((s.enter (.cancelLoop cause (j + 1) all)).record j .earlyCancel).enter (.earlyCancel j)
  | .running =>
    (((s.enter (.cancelLoop cause (j + 1) all)).setState j .cancelling).record j .cancel).enter
      (.awaitCancel j)
  | .cancelled => s.enter (.cancelLoop cause (j + 1) all)
  | _ => s.enter (.cancelLoop cause (j + 1) false)

/-- `await_early_cancel()` of a child's awaiter returns, in `cancel()`. -/
def State.earlyCancelReturns (s : State n V Err) (done : Bool) : Except Fault (State n V Err) :=
  match s.stack with
  | .earlyCancel j :: below =>
    if h : j < n then
      let s := { s with stack := below }
      if done then
        let s := (s.record ⟨j, h⟩ .confirmed).setState ⟨j, h⟩ .cancelled
        -- Before `bind()`, `invoke()` is left to `suspend()` or `reportImmediateResult()`.
        if s.bound then .ok (s.muxInvoke m none) else .ok s
      else if m.skippable ⟨j, h⟩ then .error .protocol
      else
        let s := s.setState ⟨j, h⟩ .cancellationPending
        match below with
        | .cancelLoop cause k _ :: below =>
          .ok { s with stack := .cancelLoop cause k false :: below }
        | .reportLoop _ _ :: _ => .error .assertion
        | _ => .error .protocol
    else .error .protocol
  | _ => .error .protocol

/-- `await_cancel()` of a child's awaiter returns, in `cancel()`.  It may return true only if the
handle has not been resumed. -/
def State.cancelReturns (s : State n V Err) (done : Bool) : Except Fault (State n V Err) :=
  match s.stack with
  | .awaitCancel j :: .cancelLoop cause k all :: below =>
    if h : j < n then
      if done then
        if holds (s.events ⟨j, h⟩) then
          .ok ((({ s with stack := .cancelLoop cause k all :: below }.record ⟨j, h⟩
            .confirmed).setState ⟨j, h⟩ .cancelled).muxInvoke m none)
        else .error .protocol
      else if m.abortable ⟨j, h⟩ then .error .protocol
      else
        -- The handle may have been resumed in the meantime.
        let now := all && decide (s.child ⟨j, h⟩ = .cancelled)
        .ok { s with stack := .cancelLoop cause k now :: below }
    else .error .protocol
  | _ => .error .protocol

/-- `await_suspend()` of a child's awaiter throws.  It may do so only if it still has the handle. -/
def State.suspendThrows (s : State n V Err) (err : Err) : Except Fault (State n V Err) :=
  match s.stack with
  | .awaitSuspend j :: below =>
    if h : j < n then
      if holds (s.events ⟨j, h⟩) then
        .ok ((({ s with stack := below }.record ⟨j, h⟩ .threw).setState ⟨j, h⟩ .failed).muxInvoke m
          (some err))
      else .error .protocol
    else .error .protocol
  | _ => .error .protocol

/-- `reportImmediateResult()`, up to the call of the awaiter. -/
def State.reportImmediateResult (s : State n V Err) (j : Fin n) (must : Bool) :
    Except Fault (State n V Err) :=
  let s := if s.child j = .cancellationPending then
    (s.record j (.mustResume must)).setState j (if must then .ready else .cancelled) else s
  match s.child j with
  | .cancelled => .ok (s.muxInvoke m none)
  | .notStarted =>
    if s.ready j then .ok (s.reportResult j)
    else .ok ((s.record j .earlyCancel).enter (.earlyCancel j))
  | .ready => .ok (s.reportResult j)
  | _ => .error .assertion

/-- `mustResume()`: what it returns, if no assertion fails, where `must` is what
`await_must_resume()` of the awaiter answers. -/
def mustResume (must : Bool) : HelperState → Option Bool
  | .notStarted => some true
  | .cancellationPending => some must
  | .cancelled => some false
  | .ready => some true
  | .succeeded => some true
  | .failed => some true
  | .running => none
  | .cancelling => none

/-! ### `MuxTuple` and `MuxRange` -/

/-- `await_ready()`. -/
def State.awaitReady (s : State n V Err) : Except Fault Bool :=
  if ∃ j, isReady (s.ready j) (s.child j) = none then .error .assertion
  else
    let nReady := (List.finRange n).countP fun j => isReady (s.ready j) (s.child j) = some true
    .ok (m.minReady ≤ nReady ∧
      ∀ j, isReady (s.ready j) (s.child j) = some true ∨ m.skippable j = true)

/-- The end of `internalCancel()`: back in `invoke()`, in `await_early_cancel()` or in
`await_cancel()`. -/
def State.cancelled (s : State n V Err) (cause : Cause) (all : Bool) :
    Except Fault (State n V Err) :=
  match cause with
  | .invoke =>
    if s.count + 1 = n then .ok { s with count := s.count + 1 }.resumeParent
    else .ok { s with count := s.count + 1 }
  | .earlyCancel =>
    if m.isSkippable ∧ all = false then .error .assertion
    else .ok { s with
      returned := s.returned ++ [(.earlyCancel, all)]
      checker := (s.checker.earlyCancelReturned all).getD s.checker }
  | .awaitCancel =>
    if m.isAbortable ∧ all = false then .error .assertion
    else
      let s := { s with
        muted := false
        returned := s.returned ++ [(.awaitCancel, all)]
        checker := (s.checker.cancelReturned all).getD s.checker }
      if all = false ∧ s.count = n then .ok s.resumeParent else .ok s

/-- `result()` or `asOptional()` of every child. -/
def State.takeResults (s : State n V Err) : Except Fault (State n V Err) :=
  if s.error.isNone ∧ ∃ j, s.child j ≠ .succeeded ∧ (m.combiner = .allOf ∨ s.child j ≠ .cancelled)
  then .error .assertion
  else .ok s

/-- The first child that is ready. -/
def State.firstReady (s : State n V Err) : Option (Fin n) :=
  (List.finRange n).find? fun j => isReady (s.ready j) (s.child j) = some true

/-- `handleResumeWithoutSuspend()`, up to its last loop. -/
def State.resumeWithoutSuspend (s : State n V Err) (must : Bool) : Except Fault (State n V Err) :=
  if s.bound then s.takeResults m
  else
    let s := { s with bound := true }
    match s.firstReady with
    | none => .error .assertion
    | some j => (s.enter (.reportLoop 0 j)).reportImmediateResult m j must

/-- `await_must_resume()` asks every child. -/
def State.askAll (s : State n V Err) (must : Fin n → Bool) : State n V Err := { s with
  child := fun j => if s.child j = .cancellationPending then
    (if must j then .ready else .cancelled) else s.child j
  events := fun j => if s.child j = .cancellationPending then
    s.events j ++ [.mustResume (must j)] else s.events j }

/-- `await_must_resume()`. -/
def State.awaitMustResume (s : State n V Err) (must : Fin n → Bool) :
    Except Fault (Bool × State n V Err) :=
  let failed := m.combiner = .allOf ∧ s.error.isSome
  -- The tuple form asks the children only if there is no error.
  if failed ∧ m.range = false then
    if m.isSkippable ∧ m.isAbortable then .error .assertion else .ok (true, s)
  else if ∃ j, mustResume (must j) (s.child j) = none then .error .assertion
  else
    let answer : Bool := match m.combiner with
      | .allOf => failed ∨ ∀ j, mustResume (must j) (s.child j) = some true
      | _ => ∃ j, mustResume (must j) (s.child j) = some true
    if answer ∧ m.isSkippable ∧ m.isAbortable ∧ ¬ (m.combiner = .allOf ∧ m.range) then
      .error .assertion
    else .ok (answer, s.askAll must)

/-! ### The machine -/

/-- One iteration of the loop in control. -/
def State.next (s : State n V Err) (must : Bool) : Except Fault (State n V Err) :=
  match s.stack with
  | .suspendLoop j :: below =>
    if h : j < n then { s with stack := .suspendLoop (j + 1) :: below }.suspend m ⟨j, h⟩ must
    else .ok { s with stack := below }
  | .cancelLoop cause j all :: below =>
    if h : j < n then .ok ({ s with stack := below }.cancel cause all ⟨j, h⟩)
    else { s with stack := below }.cancelled m cause all
  | .reportLoop j first :: below =>
    if h : j < n then
      let s := { s with stack := .reportLoop (j + 1) first :: below }
      if j = first then .ok s else s.reportImmediateResult m ⟨j, h⟩ must
    else { s with stack := below }.takeResults m
  | _ => .error .protocol

/-- Other code has control: the awaiter of a child, the parent, or nobody. -/
def othersInControl : List Frame → Bool
  | [] => true
  | .awaitSuspend _ :: _ => true
  | .earlyCancel _ :: _ => true
  | .awaitCancel _ :: _ => true
  | .awaitResume _ :: _ => true
  | .parent :: _ => true
  | _ => false

/-- What the mux and its children do. -/
def State.internal (s : State n V Err) : Action n V Err → Except Fault (State n V Err)
  | .next must => s.next m must
  | .becomesReady j => .ok { s with ready := Function.update s.ready j true }
  | .resumes j must =>
    if othersInControl s.stack ∧ holds (s.events j) ∧
        ¬ (m.abortable j ∧ Frame.awaitCancel j ∈ s.stack) then
      (s.record j .resumed).helperInvoke m j must
    else .error .protocol
  | .suspendReturns => match s.stack with
    | .awaitSuspend _ :: below => .ok { s with stack := below }
    | _ => .error .protocol
  | .suspendThrows err => s.suspendThrows m err
  | .earlyCancelReturns done => s.earlyCancelReturns m done
  | .cancelReturns done => s.cancelReturns m done
  | .resumeReturns result => s.resumeReturns m result
  | .parentReturns => match s.stack with
    | .parent :: below => .ok { s with stack := below }
    | _ => .error .protocol
  | _ => .error .protocol

/-- The parent has made a call, and the checker is in the state `c` now. -/
def State.check (s : State n V Err) (c : Option Checker) : Except Fault (State n V Err) :=
  match c with
  | some c => .ok { s with checker := c }
  | none => .error .protocol

/-- What the parent does before it is suspended. -/
def State.prepare (s : State n V Err) : Action n V Err → Except Fault (State n V Err)
  | .awaitReady => (s.awaitReady m).bind fun val => s.check (s.checker.readyReturned val)
  | .awaitEarlyCancel =>
    if (s.checker.earlyCancelReturned true).isSome then
      .ok (s.enter (.cancelLoop .earlyCancel 0 true))
    else .error .protocol
  | .awaitSetExecutor => s.check s.checker.aboutToSetExecutor
  | .awaitSuspend => (s.check s.checker.aboutToSuspend).bind fun s =>
      .ok ({ s with bound := true, parent := true }.enter (.suspendLoop 0))
  | _ => .error .protocol

/-- What the parent does, or has done to it, from then on, or if it is not suspended at all. -/
def State.perform (s : State n V Err) : Action n V Err → Except Fault (State n V Err)
  | .awaitCancel => (s.check s.checker.aboutToCancel).bind fun s =>
      .ok ({ s with muted := true }.enter (.cancelLoop .awaitCancel 0 true))
  | .awaitMustResume must => (s.awaitMustResume m must).bind fun r =>
      r.2.check (r.2.checker.mustResumeReturned r.1)
  | .awaitResume must => (s.check s.checker.aboutToResume).bind fun s =>
      s.resumeWithoutSuspend m must
  | _ => .error .protocol

/-- Who takes an action: the mux and its children; the parent before it is suspended; the parent
otherwise. -/
inductive Agent
  | mux
  | preparing
  | parent
  deriving DecidableEq

def Action.agent : Action n V Err → Agent
  | .awaitReady => .preparing
  | .awaitEarlyCancel => .preparing
  | .awaitSetExecutor => .preparing
  | .awaitSuspend => .preparing
  | .awaitCancel => .parent
  | .awaitMustResume _ => .parent
  | .awaitResume _ => .parent
  | _ => .mux

/-- One action. -/
def step (s : State n V Err) (a : Action n V Err) : Except Fault (State n V Err) :=
  match a.agent with
  | .mux => s.internal m a
  | .preparing => if s.stack = [] then s.prepare m a else .error .protocol
  | .parent =>
    if othersInControl s.stack ∧ (s.bound ∨ s.stack = []) then s.perform m a else .error .protocol

end Code

end Corral.Wait
