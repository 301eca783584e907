import Corral.Lib.Machine
import Corral.Lib.Registry

/-!
# `Semaphore`: the model

`corral/Semaphore.h` and the part of `corral/detail/ParkingLot.h` that it uses.

The counter is a `size_t`.  An awaiter may *borrow* a unit when it is constructed, and gives it back if
it is destroyed without having been awaited; a unit that is released while somebody waits is handed
to the first one who does, and never appears in the counter.

`release()` resumes a coroutine handle, and the code behind the handle may use the semaphore again
before `release()` returns: a `release()` that waits for that is counted in `depth`.  Control is with
the user's code between two steps.

* `State.tryAcquire`, `State.release`: the functions of `Semaphore`;
* `State.newAwaiter`, `State.awaitSuspend`, `State.awaitResume`, `State.awaitCancel`, `State.destroy`:
  those of `Awaiter` and `Parked`;
* `State.newLock` to `State.destroyLock`: those of `Lock`;
* `log` records what has happened to the units and to the waiters.
-/

namespace Corral.Semaphore

open Registry

/-- What `await_resume()` returns: nothing, for `acquire()`, or a `Lock`. -/
inductive Retval
  | void
  | lock
  deriving DecidableEq

/-- Where an awaiter stands: not awaited yet, suspended, its `await_resume()` due since
`await_suspend()` has let it through or since it has been woken, cancelled, or finished. -/
inductive Phase
  | constructed
  | parked
  | passed
  | woken
  | cancelled
  | done
  deriving DecidableEq

/-- A live awaiter. -/
structure Awaiter where
  retval : Retval
  borrowed : Bool
  phase : Phase

/-- Why an action has no successor: an assertion fails, the action is not possible in this state, or
an object is used that does not exist. -/
inductive Fault
  | assertion
  | protocol
  | dangling
  deriving DecidableEq

/-- What happens to the units and to the waiters.  A release that is `byUser` is made by the user or by
a `Lock`, the others by awaiters that are destroyed; `full` says that the counter had its largest
value. -/
inductive Event
  | acquired
  | consumed (id : ℕ)
  | passed (id : ℕ)
  | woken (id : ℕ)
  | parked (id : ℕ)
  | withdrawn (id : ℕ)
  | borrowed (id : ℕ)
  | released (byUser full : Bool)
  deriving DecidableEq

structure State where
  value : ℕ
  parked : List ℕ
  awaiters : Reg ℕ Awaiter
  nextId : ℕ
  /-- Whether `sem_` is not null, for every `Lock`. -/
  locks : Reg ℕ Bool
  nextLock : ℕ
  depth : ℕ
  log : List Event

inductive Action
  | newAwaiter (r : Retval)
  | awaitSuspend (id : ℕ)
  | awaitResume (id : ℕ)
  | awaitCancel (id : ℕ)
  | destroy (id : ℕ)
  | tryAcquire
  | release
  | newLock
  | moveLock (src : ℕ)
  | assignLock (dst src : ℕ)
  | destroyLock (lk : ℕ)
  | resumeReturns

/-- `Semaphore(size_t initial)`. -/
def State.init (initial : Fin (2 ^ 64)) : State := ⟨initial, [], ∅, 0, ∅, 0, 0, []⟩

def State.record (s : State) (e : Event) : State := { s with log := s.log ++ [e] }

def State.setAwaiter (s : State) (id : ℕ) (a : Awaiter) : State :=
  { s with awaiters := s.awaiters.insert id a }

/-- `tryAcquire()`: what it returns. -/
def State.tryAcquire (s : State) : Bool × State :=
  if s.value = 0 then (false, s) else (true, { s with value := s.value - 1 })

/-- `release()`, up to the `resume()` of the awaiter that is woken. -/
def State.release (s : State) (byUser : Bool) : Except Fault State :=
  let s := s.record (.released byUser (s.parked = [] ∧ s.value + 1 = 2 ^ 64))
  match s.parked with
  | [] => .ok { s with value := (s.value + 1) % 2 ^ 64 }
  | id :: rest => match s.awaiters.lookup id with
    | none => .error .dangling
    | some a => .ok (({ s with parked := rest, depth := s.depth + 1 }.setAwaiter id
        { a with phase := .woken }).record (.woken id))

/-! ### Awaiters -/

/-- The constructor of `Awaiter`. -/
def State.newAwaiter (s : State) (r : Retval) : State :=
  let (got, t) := s.tryAcquire
  let t := { t.setAwaiter s.nextId ⟨r, got, .constructed⟩ with nextId := s.nextId + 1 }
  if got then t.record (.borrowed s.nextId) else t

/-- `await_suspend()`, called when `await_ready()` is false. -/
def State.awaitSuspend (s : State) (id : ℕ) (a : Awaiter) : Except Fault State :=
  if a.phase ≠ .constructed then .error .protocol
  else if a.borrowed then .error .assertion
  else
    let (got, t) := s.tryAcquire
    if got then .ok ((t.setAwaiter id { a with phase := .passed }).record (.passed id))
    else .ok ({ t.setAwaiter id { a with phase := .parked } with
      parked := t.parked ++ [id] }.record (.parked id))

/-- A `Lock` of the semaphore, if `held`, or an empty one. -/
def State.addLock (s : State) (held : Bool) : State :=
  { s with locks := s.locks.insert s.nextLock held, nextLock := s.nextLock + 1 }

/-- `await_resume()`, called when `await_ready()` was true or the awaiter is to go on. -/
def State.awaitResume (s : State) (id : ℕ) (a : Awaiter) : Except Fault State :=
  if ¬ (a.phase = .woken ∨ a.phase = .passed ∨ a.phase = .constructed ∧ a.borrowed = true) then
    .error .protocol
  else
    let t := s.setAwaiter id { a with borrowed := false, phase := .done }
    let t := if a.borrowed then t.record (.consumed id) else t
    match a.retval with
    | .void => .ok t
    | .lock => .ok (t.addLock true)

/-- `Parked::await_cancel()`, called while the awaiter is suspended; it returns true. -/
def State.awaitCancel (s : State) (id : ℕ) (a : Awaiter) : Except Fault State :=
  if a.phase ≠ .parked then .error .protocol
  else .ok (({ s with parked := s.parked.erase id }.setAwaiter id
    { a with phase := .cancelled }).record (.withdrawn id))

/-- `~Awaiter()`, then `~IntrusiveListItem()`; an awaiter that has borrowed is in no list. -/
def State.destroy (s : State) (id : ℕ) (a : Awaiter) : Except Fault State :=
  let t := { s with awaiters := s.awaiters.erase id, parked := s.parked.erase id }
  let t := if a.phase = .parked then t.record (.withdrawn id) else t
  if a.borrowed then t.release false else .ok t

/-! ### Locks -/

/-- `Lock()`. -/
def State.newLock (s : State) : State := s.addLock false

/-- `Lock(Lock&& lk)`. -/
def State.moveLock (s : State) (lk : ℕ) (held : Bool) : State :=
  { s with locks := s.locks.insert lk false }.addLock held

/-- `~Lock()`. -/
def State.destroyLock (s : State) (lk : ℕ) (held : Bool) : Except Fault State :=
  let t := { s with locks := s.locks.erase lk }
  if held then t.release true else .ok t

/-- `operator=(Lock lk)`, with a parameter that is constructed from `src`: it is exchanged
for `dst`, and destroyed. -/
def State.assignLock (s : State) (dst src : ℕ) (held : Bool) : Except Fault State :=
  let t := s.moveLock src held
  match t.locks.lookup dst with
  | none => .error .dangling
  | some old => { t with locks := t.locks.insert dst held }.destroyLock s.nextLock old

/-! ### The machine -/

def State.withAwaiter (s : State) (id : ℕ) (f : Awaiter → Except Fault State) : Except Fault State :=
  match s.awaiters.lookup id with
  | none => .error .dangling
  | some a => f a

def State.withLock (s : State) (lk : ℕ) (f : Bool → Except Fault State) : Except Fault State :=
  match s.locks.lookup lk with
  | none => .error .dangling
  | some held => f held

/-- One action of the user's code. -/
def step (s : State) : Action → Except Fault State
  | .newAwaiter r => .ok (s.newAwaiter r)
  | .awaitSuspend id => s.withAwaiter id (s.awaitSuspend id)
  | .awaitResume id => s.withAwaiter id (s.awaitResume id)
  | .awaitCancel id => s.withAwaiter id (s.awaitCancel id)
  | .destroy id => s.withAwaiter id (s.destroy id)
  | .tryAcquire =>
    let (got, t) := s.tryAcquire
    .ok (if got then t.record .acquired else t)
  | .release => s.release true
  | .newLock => .ok s.newLock
  | .moveLock lk => s.withLock lk fun held => .ok (s.moveLock lk held)
  | .assignLock dst src => s.withLock src (s.assignLock dst src)
  | .destroyLock lk => s.withLock lk (s.destroyLock lk)
  | .resumeReturns => match s.depth with
    | 0 => .error .protocol
    | n + 1 => .ok { s with depth := n }

end Corral.Semaphore
