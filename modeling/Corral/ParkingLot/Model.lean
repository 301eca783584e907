import Corral.Lib.Machine
import Corral.Lib.WaitQueue

/-!
# `ParkingLot` and `Event`: the model

`corral/ParkingLot.h`, `corral/Event.h`, and `corral/detail/ParkingLot.h` that both are made of.

`unparkAll()` moves the wait list to a local variable and resumes the awaiters in it one after another.
The code that is resumed may use the lot again before `resume()` returns: it may suspend, cancel and
destroy awaiters, also those in the local list, and call `unparkOne()` and `unparkAll()` itself.
Control is with the user's code between two steps, and `resumeReturns` lets the innermost `resume()`
return to the function that called it.

* `State.await`: `await_ready()`, and `await_suspend()` if that is false;
* `State.unparkOne`, `State.unparkAll`, `State.trigger`: the functions that resume awaiters;
* `State.unparkNext`: the loop of `unparkAll()`;
* `log` records what happens to the awaiters, and `finished` the calls of `unparkAll()` that have
  returned.
-/

namespace Corral.ParkingLot

open Registry WaitQueue

/-- What derives from `ParkingLotImpl`. -/
inductive Self
  | parkingLot
  | event
  deriving DecidableEq

/-- Where an awaiter stands: not awaited yet, ready without having been suspended, suspended, unparked,
cancelled, or finished. -/
inductive Phase
  | constructed
  | ready
  | suspended
  | unparked
  | cancelled
  | done
  deriving DecidableEq

/-- Why an action has no successor: it is not possible in this state, or something is used that does not
exist. -/
inductive Fault
  | protocol
  | dangling
  deriving DecidableEq

inductive Event
  | suspended (id : ℕ)
  | withdrawn (id : ℕ)
  | unparked (id : ℕ)
  deriving DecidableEq

structure State where
  self : Self
  triggered : Bool
  /-- `parked_`, and the local list `parked` of each call of `unparkAll()` in progress, with the number
  of the calls of `unparkOne()` outside of it. -/
  lists : Lists ℕ ℕ
  /-- The calls of `unparkOne()` in progress. -/
  depth : ℕ
  awaiters : Reg ℕ Phase
  nextId : ℕ
  finished : List (Batch ℕ ℕ)
  log : List Event

inductive Action
  | newAwaiter
  | await (id : ℕ)
  | awaitResume (id : ℕ)
  | awaitCancel (id : ℕ)
  | destroy (id : ℕ)
  | unparkOne
  | unparkAll
  | trigger
  | resumeReturns
  deriving DecidableEq

def State.init (self : Self) : State := ⟨self, false, ⟨[], []⟩, 0, ∅, 0, [], []⟩

def State.record (s : State) (e : Event) : State := { s with log := s.log ++ [e] }

def State.setPhase (s : State) (id : ℕ) (p : Phase) : State :=
  { s with awaiters := s.awaiters.insert id p }

/-! ### Awaiters -/

/-- `park()` or `get()`. -/
def State.newAwaiter (s : State) : State :=
  { s.setPhase s.nextId .constructed with nextId := s.nextId + 1 }

/-- `await_ready()`. -/
def State.awaitReady (s : State) : Bool :=
  match s.self with
  | .parkingLot => false
  | .event => s.triggered

/-- `doSuspend()`. -/
def State.doSuspend (s : State) (id : ℕ) : State :=
  { s.setPhase id .suspended with lists := s.lists.put id }.record (.suspended id)

/-- An awaiter may be awaited again once it has finished. -/
def State.await (s : State) (id : ℕ) (p : Phase) : Except Fault State :=
  if p ≠ .constructed ∧ p ≠ .done then .error .protocol
  else if s.awaitReady then .ok (s.setPhase id .ready)
  else .ok (s.doSuspend id)

/-- `await_resume()`. -/
def State.awaitResume (s : State) (id : ℕ) (p : Phase) : Except Fault State :=
  if p ≠ .ready ∧ p ≠ .unparked then .error .protocol else .ok (s.setPhase id .done)

/-- `await_cancel()`, called while the awaiter is suspended; it returns true. -/
def State.awaitCancel (s : State) (id : ℕ) (p : Phase) : Except Fault State :=
  if p ≠ .suspended then .error .protocol
  else .ok ({ s.setPhase id .cancelled with lists := s.lists.unlink id }.record (.withdrawn id))

/-- `~IntrusiveListItem()`. -/
def State.destroy (s : State) (id : ℕ) (p : Phase) : State :=
  let t := { s with lists := s.lists.unlink id, awaiters := s.awaiters.erase id }
  if p = .suspended then t.record (.withdrawn id) else t

/-! ### Resuming -/

/-- `unparkOne()`, up to the `resume()`. -/
def State.unparkOne (s : State) : Except Fault State :=
  match s.lists.waiting with
  | [] => .ok s
  | id :: rest => match s.awaiters.lookup id with
    | none => .error .dangling
    | some _ => .ok ({ s.setPhase id .unparked with
        lists := { s.lists with waiting := rest }
        depth := s.depth + 1 }.record (.unparked id))

/-- The loop of the innermost call of `unparkAll()`, up to the next `resume()` or to its end. -/
def State.unparkNext (s : State) : Except Fault State :=
  match s.lists.batches with
  | [] => .error .protocol
  | b :: bs => match b.pending with
    | [] => .ok { s with lists := { s.lists with batches := bs }, finished := s.finished ++ [b] }
    | id :: rest => match s.awaiters.lookup id with
      | none => .error .dangling
      | some _ => .ok ({ s.setPhase id .unparked with
          lists := { s.lists with batches := b.serve id rest :: bs } }.record (.unparked id))

/-- `unparkAll()`. -/
def State.unparkAll (s : State) : Except Fault State :=
  { s with lists := s.lists.start s.depth }.unparkNext

/-- `Event::trigger()`. -/
def State.trigger (s : State) : Except Fault State := { s with triggered := true }.unparkAll

/-- The calls of `unparkOne()` outside of the innermost call of `unparkAll()`. -/
def State.base (s : State) : ℕ :=
  match s.lists.batches with
  | [] => 0
  | b :: _ => b.data

/-- The innermost `resume()` returns to `unparkOne()`, which returns, or to the loop of
`unparkAll()`. -/
def State.resumeReturns (s : State) : Except Fault State :=
  if s.base < s.depth then .ok { s with depth := s.depth - 1 } else s.unparkNext

/-! ### The machine -/

def State.withAwaiter (s : State) (id : ℕ) (f : Phase → Except Fault State) : Except Fault State :=
  match s.awaiters.lookup id with
  | none => .error .dangling
  | some p => f p

/-- One action of the user's code. -/
def step (s : State) : Action → Except Fault State
  | .newAwaiter => .ok s.newAwaiter
  | .await id => s.withAwaiter id (s.await id)
  | .awaitResume id => s.withAwaiter id (s.awaitResume id)
  | .awaitCancel id => s.withAwaiter id (s.awaitCancel id)
  | .destroy id => s.withAwaiter id fun p => .ok (s.destroy id p)
  | .unparkOne => if s.self = .parkingLot then s.unparkOne else .error .protocol
  | .unparkAll => if s.self = .parkingLot then s.unparkAll else .error .protocol
  | .trigger => if s.self = .event then s.trigger else .error .protocol
  | .resumeReturns => s.resumeReturns

end Corral.ParkingLot
