import Corral.Lib.Machine

/-!
# `ThreadPool`: the model

The pool of `corral/ThreadPool.h`: its worker threads, and the main thread in which the event loop runs.

* `Config`: the number of threads, and the widths of `unsigned` and `size_t`;
* `Worker`, `Main`: where the threads are between two operations on shared memory;
* `State`, with what has happened;
* `workerStep`, `mainStep`: the next step of a thread; `step`: one step, of whichever thread.

A step is one atomic operation, with what the thread does alone around it.  Tasks are named by the
addresses of their objects: an object is submitted again only when it has been resumed.  The function of
a task is not modelled, nor is the cancellation of a task, which no other part of the pool looks at.
-/

namespace Corral.ThreadPool

def stride : ℕ := 7

/-- `std::bit_ceil()` -/
def bitCeil (n : ℕ) : ℕ := if n ≤ 1 then 1 else 2 ^ (Nat.log2 (n - 1) + 1)

/-- A pool with threads, the slots of which can be counted with an `unsigned`. -/
structure Config where
  threadCount : ℕ
  threadCount_pos : 0 < threadCount
  unsignedBits : ℕ
  sizeBits : ℕ
  unsignedBits_le : unsignedBits ≤ sizeBits
  capacity_lt : bitCeil threadCount * 512 < 2 ^ unsignedBits

def Config.sqCapacity (c : Config) : ℕ := bitCeil c.threadCount * 512

theorem bitCeil_pos (n : ℕ) : 0 < bitCeil n := by
  unfold bitCeil
  split
  · decide
  · exact Nat.two_pow_pos _

theorem Config.sqCapacity_pos (c : Config) : 0 < c.sqCapacity :=
  Nat.mul_pos (bitCeil_pos _) (by decide)

/-- A worker thread. -/
abbrev Config.Thread (c : Config) := Fin c.threadCount

instance (c : Config) : NeZero c.threadCount := ⟨c.threadCount_pos.ne'⟩

/-- The index into `sq`. -/
def Config.index (c : Config) (ticket : ℕ) : ℕ := ticket % c.sqCapacity

theorem index_mem (c : Config) (n : ℕ) : c.index n ∈ Finset.range c.sqCapacity :=
  Finset.mem_range.2 (Nat.mod_lt n c.sqCapacity_pos)

/-- `sqHead` or `sqTail` after `Stride` has been added to it. -/
def Config.advance (c : Config) (ticket : ℕ) : ℕ := (ticket + stride) % 2 ^ c.sizeBits

/-- What is in a slot: a pointer to a task, or `ExitRequest`. -/
inductive Item (K : Type*)
  | task (x : K)
  | exitRequest
  deriving DecidableEq

structure Slot (K : Type*) where
  task : Option (Item K)
  dequeuing : Bool
  deriving DecidableEq

/-- Where a worker thread is: what it does next, or `blocked` in `wait()`. -/
inductive Worker (K : Type*)
  | fetchAdd
  | exchange (head : ℕ)
  | loadCutoff (head : ℕ)
  | spin (head spins cutoff : ℕ)
  | storeCutoff (spins : ℕ) (ret : Item K)
  | startDequeuing (head : ℕ)
  | wait (head : ℕ)
  | blocked (head : ℕ)
  | stopDequeuing (head : ℕ)
  | popped (t : Item K)
  | run (x : K)
  | loadHead (x : K)
  | pushHead (x : K) (head : Option K)
  | post
  | exited
  deriving DecidableEq

/-- Who calls `pushToSQ()`. -/
inductive Caller (K : Type*)
  | awaitSuspend (x : K)
  | submitBackoffSQ (t : K) (next : Option K)
  | destructor (pushed : ℕ)
  deriving DecidableEq

/-- The operations of `pushToSQ()`. -/
inductive Push
  | compareExchange
  | loadDequeuing
  | notifyOne
  | advance
  deriving DecidableEq

/-- Where the main thread is: in the code of the user, or what it does next. -/
inductive Main (K : Type*)
  | user
  | pushToSQ (caller : Caller K) (op : Push)
  | pushToBackoffSQ (x : K)
  | drainCQ
  | reverse (prev curr : Option K)
  | process (t : Option K)
  | drained
  | submitBackoffSQ (t : Option K)
  | join (joined : ℕ)
  deriving DecidableEq

/-- Where the code of the user returns to: the event loop, or the loop of `drainCQ()` over a list. -/
inductive Context (K : Type*)
  | eventLoop
  | drainCQ (next : Option K)
  deriving DecidableEq

/-- The data of the pool; the `next_` of the tasks; the threads; the notifications that are to be
delivered.  Then the slots at which a reader arrived, into which an item was pushed, from which one was
taken; the tasks that were submitted, run, and resumed. -/
structure State (c : Config) (K : Type*) where
  sq : ℕ → Slot K
  sqHead : ℕ
  sqTail : ℕ
  sqSpinCutoff : ℕ
  backoffSqHead : Option K
  /-- The task whose `next_` it points to, if it does not point to `backoffSqHead`. -/
  backoffSqTailPtr : Option K
  cqHead : Option K
  next : K → Option K
  workers : c.Thread → Worker K
  main : Main K
  context : Context K
  posted : ℕ
  destroyed : Bool
  arrivals : List ℕ
  pushes : List ℕ
  takes : List ℕ
  submitted : List K
  ran : List K
  resumed : List K

/-- Why there is no step: the thread cannot take it, an assertion fails, or the pool is used that has
been destroyed. -/
inductive Fault
  | disabled
  | assertion
  | lifetime
  deriving DecidableEq

inductive Action (c : Config) (K : Type*)
  /-- The worker thread takes its next step. -/
  | worker (i : c.Thread)
  /-- `wait()` is unblocked spuriously. -/
  | wake (i : c.Thread)
  /-- `compare_exchange_weak()` fails spuriously. -/
  | weaklyFail (i : c.Thread)
  /-- The main thread takes its next step, which is not one of these. -/
  | main
  | notify (i : c.Thread)
  /-- `co_await pool.run()` -/
  | submit (x : K)
  /-- The code that was resumed suspends. -/
  | suspend
  /-- The event loop delivers some of the notifications, as one. -/
  | tick (merged : ℕ)
  | destroy
  deriving DecidableEq

variable {c : Config} {K : Type*}

def State.init (c : Config) (K : Type*) : State c K where
  sq _ := ⟨none, false⟩
  sqHead := 0
  sqTail := 0
  sqSpinCutoff := 200
  backoffSqHead := none
  backoffSqTailPtr := none
  cqHead := none
  next _ := none
  workers _ := .fetchAdd
  main := .user
  context := .eventLoop
  posted := 0
  destroyed := false
  arrivals := []
  pushes := []
  takes := []
  submitted := []
  ran := []
  resumed := []

def State.setWorker (s : State c K) (i : c.Thread) (w : Worker K) : State c K :=
  { s with workers := Function.update s.workers i w }

def State.setMain (s : State c K) (m : Main K) : State c K := { s with main := m }

def State.setTask (s : State c K) (i : ℕ) (t : Option (Item K)) : State c K :=
  { s with sq := Function.update s.sq i { s.sq i with task := t } }

def State.setDequeuing (s : State c K) (i : ℕ) (b : Bool) : State c K :=
  { s with sq := Function.update s.sq i { s.sq i with dequeuing := b } }

@[simp] theorem workers_setWorker_self (s : State c K) (i : c.Thread) (w : Worker K) :
    (s.setWorker i w).workers i = w := Function.update_self _ _ _

theorem workers_setWorker_of_ne {i j : c.Thread} (h : j ≠ i) (s : State c K) (w : Worker K) :
    (s.setWorker i w).workers j = s.workers j := Function.update_of_ne h _ _

def State.setNext [DecidableEq K] (s : State c K) (x : K) (p : Option K) : State c K :=
  { s with next := Function.update s.next x p }

/-! ### The worker threads -/

/-- `slot.task.exchange(nullptr)`: where the thread goes with an item, and without one. -/
def State.exchange (s : State c K) (i : c.Thread) (head : ℕ) (found : Item K → Worker K)
    (missed : Worker K) : State c K :=
  match (s.sq (c.index head)).task with
  | none => s.setWorker i missed
  | some t =>
    { (s.setTask (c.index head) none).setWorker i (found t) with
      takes := s.takes ++ [c.index head] }

theorem exchange_of_none {s : State c K} {i : c.Thread} {head : ℕ} {found : Item K → Worker K}
    {missed : Worker K} (h : (s.sq (c.index head)).task = none) :
    s.exchange i head found missed = s.setWorker i missed := by
  unfold State.exchange
  rw [h]

theorem exchange_of_some {s : State c K} {i : c.Thread} {head : ℕ} {found : Item K → Worker K}
    {missed : Worker K} {t : Item K} (h : (s.sq (c.index head)).task = some t) :
    s.exchange i head found missed = { (s.setTask (c.index head) none).setWorker i (found t) with
      takes := s.takes ++ [c.index head] } := by
  unfold State.exchange
  rw [h]

/-- One in some rounds spins longer, to adjust the cutoff. -/
def updateCutoff (head : ℕ) : Bool := head % 128 == 0

section
variable [DecidableEq K]

/-- The next step of a worker thread. -/
def State.workerStep (s : State c K) (i : c.Thread) : Except Fault (State c K) :=
  match s.workers i with
  -- `popFromSQ()`
  | .fetchAdd => .ok { s.setWorker i (.exchange s.sqHead) with
      sqHead := c.advance s.sqHead
      arrivals := s.arrivals ++ [c.index s.sqHead] }
  | .exchange head => .ok (s.exchange i head .popped (.loadCutoff head))
  | .loadCutoff head => .ok (s.setWorker i
      (.spin head 0 (if updateCutoff head then 20000 else s.sqSpinCutoff)))
  | .spin head spins cutoff => .ok (s.exchange i head
      (fun t => if updateCutoff head then .storeCutoff spins t else .popped t)
      (if spins + 1 < cutoff then .spin head (spins + 1) cutoff else .startDequeuing head))
  | .storeCutoff spins ret => .ok { s.setWorker i (.popped ret) with
      sqSpinCutoff := max 200 (spins * 5 / 4) }
  | .startDequeuing head => .ok ((s.setDequeuing (c.index head) true).setWorker i (.wait head))
  | .wait head => .ok (s.setWorker i
      (if (s.sq (c.index head)).task = none then .blocked head else .stopDequeuing head))
  | .blocked _ => .error .disabled
  | .stopDequeuing head => .ok ((s.setDequeuing (c.index head) false).setWorker i (.exchange head))
  -- `threadBody()`
  | .popped .exitRequest => .ok (s.setWorker i .exited)
  | .popped (.task x) => .ok (s.setWorker i (.run x))
  | .run x => .ok { s.setWorker i (.loadHead x) with ran := s.ran ++ [x] }
  -- `pushToCQ()`
  | .loadHead x => .ok ((s.setNext x s.cqHead).setWorker i (.pushHead x s.cqHead))
  | .pushHead x head => .ok (if s.cqHead = head then
      { s.setWorker i (if head = none then .post else .fetchAdd) with cqHead := some x }
    else s.setWorker i (.loadHead x))
  | .post => .ok { s.setWorker i .fetchAdd with posted := s.posted + 1 }
  | .exited => .error .disabled

/-! ### The main thread -/

def Caller.item : Caller K → Item K
  | .awaitSuspend x => .task x
  | .submitBackoffSQ t _ => .task t
  | .destructor _ => .exitRequest

/-- The task that is submitted by the push. -/
def Caller.submits : Caller K → List K
  | .awaitSuspend x => [x]
  | _ => []

/-- The slot that the next item goes into. -/
def State.tailIndex (s : State c K) : ℕ := c.index s.sqTail

/-- `pushToSQ()` returns false. -/
def State.pushFailed (s : State c K) : Caller K → Except Fault (State c K)
  | .awaitSuspend x => .ok (s.setMain (.pushToBackoffSQ x))
  | .submitBackoffSQ t _ => .ok { s.setMain .user with backoffSqHead := some t }
  | .destructor _ => .error .assertion

/-- `pushToSQ()` returns true. -/
def State.pushSucceeded (s : State c K) : Caller K → State c K
  | .awaitSuspend _ => s.setMain .user
  | .submitBackoffSQ _ next => s.setMain (.submitBackoffSQ next)
  | .destructor pushed =>
    if pushed + 1 < c.threadCount then
      s.setMain (.pushToSQ (.destructor (pushed + 1)) .compareExchange)
    else s.setMain (.join 0)

/-- The worker thread is blocked in `wait()` for the slot. -/
def State.isBlocked (s : State c K) (i : c.Thread) (j : ℕ) : Bool :=
  match s.workers i with
  | .blocked head => c.index head == j
  | _ => false

/-- The next step in `pushToSQ()`. -/
def State.pushStep (s : State c K) (caller : Caller K) : Push → Except Fault (State c K)
  | .compareExchange =>
    if (s.sq s.tailIndex).task = none then
      .ok { (s.setTask s.tailIndex (some caller.item)).setMain (.pushToSQ caller .loadDequeuing) with
        pushes := s.pushes ++ [s.tailIndex]
        submitted := s.submitted ++ caller.submits }
    else s.pushFailed caller
  | .loadDequeuing => .ok (s.setMain (.pushToSQ caller
      (if (s.sq s.tailIndex).dequeuing then .notifyOne else .advance)))
  | .notifyOne =>
    -- If a thread is blocked, one of them is notified.
    if ∃ i, s.isBlocked i s.tailIndex then .error .disabled
    else .ok (s.setMain (.pushToSQ caller .advance))
  | .advance => .ok (State.pushSucceeded { s with sqTail := c.advance s.sqTail } caller)

/-- `*backoffSqTailPtr = task` -/
def State.storeTail (s : State c K) (x : K) : State c K :=
  match s.backoffSqTailPtr with
  | none => { s with backoffSqHead := some x }
  | some y => s.setNext y (some x)

/-- The next step of the main thread in the code of the pool. -/
def State.mainStep (s : State c K) : Except Fault (State c K) :=
  match s.main with
  | .user => .error .disabled
  | .pushToSQ caller op => s.pushStep caller op
  | .pushToBackoffSQ x => .ok { ((s.setNext x none).storeTail x).setMain .user with
      backoffSqTailPtr := some x
      submitted := s.submitted ++ [x] }
  | .drainCQ => .ok { s.setMain (if s.cqHead = none then .drained else .reverse none s.cqHead) with
      cqHead := none }
  | .reverse prev none => .ok (s.setMain (.process prev))
  | .reverse prev (some curr) =>
    .ok ((s.setNext curr prev).setMain (.reverse (some curr) (s.next curr)))
  | .process none => .ok (s.setMain .drainCQ)
  | .process (some t) => .ok { s.setMain .user with
      context := .drainCQ (s.next t)
      resumed := s.resumed ++ [t] }
  | .drained => match s.backoffSqHead with
    | none => .ok (s.setMain .user)
    | some t => if s.destroyed then .error .lifetime else .ok (s.setMain (.submitBackoffSQ (some t)))
  | .submitBackoffSQ none => .ok { s.setMain .user with
      backoffSqHead := none
      backoffSqTailPtr := none }
  | .submitBackoffSQ (some t) => .ok (s.setMain
      (.pushToSQ (.submitBackoffSQ t (s.next t)) .compareExchange))
  | .join joined =>
    if h : joined < c.threadCount then
      if s.workers ⟨joined, h⟩ = .exited then .ok (s.setMain (.join (joined + 1)))
      else .error .disabled
    else if s.sqHead = s.sqTail ∧ s.cqHead = none then
      .ok { s.setMain .user with destroyed := true }
    else .error .assertion

/-- The task is suspended in the pool. -/
def State.isActive (s : State c K) (x : K) : Bool := s.resumed.count x < s.submitted.count x

/-- One step. -/
def step (s : State c K) : Action c K → Except Fault (State c K)
  | .worker i => s.workerStep i
  | .wake i => match s.workers i with
    | .blocked head => .ok (s.setWorker i (.wait head))
    | _ => .error .disabled
  | .weaklyFail i => match s.workers i with
    | .pushHead x _ => .ok (s.setWorker i (.loadHead x))
    | _ => .error .disabled
  | .main => s.mainStep
  | .notify i => match s.main, s.workers i with
    | .pushToSQ caller .notifyOne, .blocked head =>
      if c.index head = s.tailIndex then
        .ok ((s.setWorker i (.wait head)).setMain (.pushToSQ caller .advance))
      else .error .disabled
    | _, _ => .error .disabled
  | .submit x =>
    if s.main = .user then
      if s.destroyed ∨ s.isActive x then .error .lifetime
      else .ok (s.setMain (.pushToSQ (.awaitSuspend x) .compareExchange))
    else .error .disabled
  | .suspend => match s.main, s.context with
    | .user, .drainCQ next => .ok { s.setMain (.process next) with context := .eventLoop }
    | _, _ => .error .disabled
  | .tick merged =>
    if s.main = .user ∧ s.context = .eventLoop ∧ 0 < merged ∧ merged ≤ s.posted then
      if s.destroyed then .error .lifetime
      else .ok { s.setMain .drainCQ with posted := s.posted - merged }
    else .error .disabled
  | .destroy =>
    if s.main = .user then
      if s.destroyed then .error .lifetime
      else if s.backoffSqHead = none then
        .ok (s.setMain (.pushToSQ (.destructor 0) .compareExchange))
      else .error .assertion
    else .error .disabled

end

end Corral.ThreadPool
