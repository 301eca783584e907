import Corral.Lib.Machine
import Corral.Lib.Registry
import Corral.Lib.WaitQueue

/-!
# `Value`: the model

`corral/Value.h`, with the lists of `corral/detail/IntrusiveList.h`.

`modify()` moves the wait list to a local variable and tests the waiters in it one after another
against the value that it has stored: one that matches is resumed, any other one goes to the end of the
wait list.  The code that is resumed may use the value again, and call `modify()` again, before
`resume()` returns; while a loop goes on to its next waiter (`looping`), it has no control.

* `Kind`: the awaiters and their predicates, which are taken to be functions;
* `State.await`: `await_ready()`, and `await_suspend()` if that is false: whatever awaits an
  awaitable calls the one right after the other;
* `State.onChanged`, `State.modify`, `State.next`: a call of `modify()`, which `set()` and `operator=`
  make with a function that assigns a value;
* `log` records what happens to the awaiters, and `finished` the calls that have returned.
-/

namespace Corral.Value

open Registry WaitQueue

section Types

variable (T : Type*)

/-- `UntilMatches`, `Comparison::Awaiter` and `UntilChanged`, with their `fn_`. -/
inductive Kind
  | untilMatches (fn : T → Bool)
  | comparison (fn : T → Bool)
  | untilChanged (fn : T → T → Bool)

/-- What `await_resume()` returns. -/
inductive Result
  | void
  | value (v : T)
  | change (old new : T)
  deriving DecidableEq

/-- Where an awaiter stands: not awaited yet, ready without having been suspended, suspended, resumed,
cancelled, or finished. -/
inductive Phase
  | constructed
  | ready
  | suspended
  | resumed
  | cancelled
  | done
  deriving DecidableEq

/-- A live awaiter; there is no `result_` in a `Comparison::Awaiter`. -/
structure Awaiter where
  kind : Kind T
  result : Option (Result T)
  phase : Phase

/-- The local variables of `modify()`, other than the list. -/
structure Change where
  prev : T
  value : T

/-- A call of `onChanged()` for an awaiter, and whether it matched. -/
structure Test where
  id : ℕ
  prev : T
  value : T
  matched : Bool

/-- What happens to the awaiters; `built` is the value stored when an awaiter is constructed, and
`holding` says whether it is suspended although its predicate holds for the value stored. -/
inductive Event
  | constructed (id : ℕ) (kind : Kind T) (built : T)
  | ready (id : ℕ)
  | suspended (id : ℕ) (holding : Bool)
  | tested (t : Test T)
  | withdrawn (id : ℕ)
  | yielded (id : ℕ) (r : Result T)

structure State where
  value : T
  /-- `parked_`, and the local list `parked` of each call of `modify()` in progress. -/
  lists : Lists ℕ (Change T)
  looping : Bool
  awaiters : Reg ℕ (Awaiter T)
  nextId : ℕ
  finished : List (Batch ℕ (Change T))
  log : List (Event T)

inductive Action
  | newAwaiter (k : Kind T)
  | await (id : ℕ)
  | awaitResume (id : ℕ)
  | awaitCancel (id : ℕ)
  | destroy (id : ℕ)
  | modify (fn : T → T)
  | next

end Types

/-- Why an action has no successor: it is not possible in this state, or something is used that does not
exist. -/
inductive Fault
  | protocol
  | dangling
  deriving DecidableEq

variable {T : Type*}

/-- `Value(T value)`. -/
def State.init (v : T) : State T := ⟨v, ⟨[], []⟩, false, ∅, 0, [], []⟩

def State.record (s : State T) (e : Event T) : State T := { s with log := s.log ++ [e] }

def State.setAwaiter (s : State T) (id : ℕ) (a : Awaiter T) : State T :=
  { s with awaiters := s.awaiters.insert id a }

/-! ### Predicates -/

/-- `untilEquals(T expected)`. -/
def untilEquals [DecidableEq T] (expected : T) : Kind T := .untilMatches fun v => v == expected

/-- `untilChanged()`. -/
def untilAnyChange [DecidableEq T] : Kind T := .untilChanged fun old new => old != new

/-- `untilChanged(T from, T to)`. -/
def untilChangedTo [DecidableEq T] (old new : T) : Kind T :=
  .untilChanged fun f t => f == old && t == new

/-- `matches()`, without its effect on `result_`. -/
def Kind.test : Kind T → T → T → Bool
  | .untilMatches fn, _, new => fn new
  | .comparison fn, _, new => fn new
  | .untilChanged fn, old, new => fn old new

/-- What `await_resume()` returns after a match. -/
def Kind.yields : Kind T → T → T → Result T
  | .untilMatches _, _, new => .value new
  | .comparison _, _, _ => .void
  | .untilChanged _, old, new => .change old new

/-- What `matches()` stores in `result_`. -/
def Kind.captures : Kind T → T → T → Option (Result T)
  | .comparison _, _, _ => none
  | k, old, new => some (k.yields old new)

/-- What the constructor of `UntilMatches` stores in `result_`. -/
def Kind.initial : Kind T → T → Option (Result T)
  | .untilMatches fn, v => if fn v then some (.value v) else none
  | _, _ => none

/-- Whether the predicate holds for a value; there is none to hold in `untilChanged()`. -/
def Kind.holds : Kind T → T → Bool
  | .untilMatches fn, v => fn v
  | .comparison fn, v => fn v
  | .untilChanged _, _ => false

/-! ### Awaiters -/

/-- The constructors; the one of `UntilMatches` tests the value. -/
def State.newAwaiter (s : State T) (k : Kind T) : State T :=
  { s.setAwaiter s.nextId ⟨k, k.initial s.value, .constructed⟩ with nextId := s.nextId + 1 }.record
    (.constructed s.nextId k s.value)

/-- `await_ready()`. -/
def State.awaitReady (s : State T) (a : Awaiter T) : Bool :=
  match a.kind with
  | .untilMatches _ => a.result.isSome
  | .comparison fn => fn s.value
  | .untilChanged _ => false

/-- `await_suspend()`. -/
def State.awaitSuspend (s : State T) (id : ℕ) (a : Awaiter T) : State T :=
  { s.setAwaiter id { a with phase := .suspended } with lists := s.lists.put id }.record
    (.suspended id (a.kind.holds s.value))

def State.await (s : State T) (id : ℕ) (a : Awaiter T) : Except Fault (State T) :=
  if a.phase ≠ .constructed then .error .protocol
  else if s.awaitReady a then .ok ((s.setAwaiter id { a with phase := .ready }).record (.ready id))
  else .ok (s.awaitSuspend id a)

/-- `await_resume()`. -/
def State.awaitResume (s : State T) (id : ℕ) (a : Awaiter T) : Except Fault (State T) :=
  if ¬ (a.phase = .ready ∨ a.phase = .resumed) then .error .protocol
  else
    let t := s.setAwaiter id { a with phase := .done }
    match a.kind, a.result with
    | .comparison _, _ => .ok (t.record (.yielded id .void))
    | _, some r => .ok (t.record (.yielded id r))
    | _, none => .error .dangling

/-- `await_cancel()`, called while the awaiter is suspended; it returns true. -/
def State.awaitCancel (s : State T) (id : ℕ) (a : Awaiter T) : Except Fault (State T) :=
  if a.phase ≠ .suspended then .error .protocol
  else .ok ({ s with lists := s.lists.unlink id }.setAwaiter id
    { a with phase := .cancelled } |>.record (.withdrawn id))

/-- `~IntrusiveListItem()`. -/
def State.destroy (s : State T) (id : ℕ) (a : Awaiter T) : State T :=
  let t := { s with lists := s.lists.unlink id, awaiters := s.awaiters.erase id }
  if a.phase = .suspended then t.record (.withdrawn id) else t

/-! ### Modifications -/

/-- `modify()`, up to its loop. -/
def State.modify (s : State T) (fn : T → T) : State T :=
  { s with
    value := fn s.value
    lists := s.lists.start ⟨s.value, fn s.value⟩
    looping := true }

/-- `onChanged()`, up to the `resume()` of an awaiter that matches. -/
def State.onChanged (s : State T) (id : ℕ) (a : Awaiter T) (c : Change T) : State T :=
  if a.kind.test c.prev c.value then
    { s.setAwaiter id { a with result := a.kind.captures c.prev c.value, phase := .resumed } with
      looping := false }.record (.tested ⟨id, c.prev, c.value, true⟩)
  else
    { s with lists := s.lists.put id, looping := true }.record
      (.tested ⟨id, c.prev, c.value, false⟩)

/-- The loop of the innermost `modify()` goes on: it tests the next waiter, or returns. -/
def State.next (s : State T) : Except Fault (State T) :=
  match s.lists.batches with
  | [] => .error .protocol
  | b :: bs => match b.pending with
    | [] => .ok { s with
        lists := { s.lists with batches := bs }
        looping := false
        finished := s.finished ++ [b] }
    | id :: rest => match s.awaiters.lookup id with
      | none => .error .dangling
      | some a => .ok ({ s with lists := { s.lists with batches := b.serve id rest :: bs } }.onChanged
          id a b.data)

/-- `set(T value)`. -/
def Action.set (value : T) : Action T := .modify fun _ => value

/-! ### The machine -/

def State.withAwaiter (s : State T) (id : ℕ) (f : Awaiter T → Except Fault (State T)) :
    Except Fault (State T) :=
  match s.awaiters.lookup id with
  | none => .error .dangling
  | some a => f a

/-- One action of the user's code. -/
def State.act (s : State T) : Action T → Except Fault (State T)
  | .newAwaiter k => .ok (s.newAwaiter k)
  | .await id => s.withAwaiter id (s.await id)
  | .awaitResume id => s.withAwaiter id (s.awaitResume id)
  | .awaitCancel id => s.withAwaiter id (s.awaitCancel id)
  | .destroy id => s.withAwaiter id fun a => .ok (s.destroy id a)
  | .modify fn => .ok (s.modify fn)
  | .next => s.next

/-- While a loop goes on by itself, the user's code does not act. -/
def step (s : State T) (act : Action T) : Except Fault (State T) :=
  match s.looping, act with
  | true, .next => s.next
  | true, _ => .error .protocol
  | false, act => s.act act

end Corral.Value
