import Corral.Lib.Machine
import Corral.Lib.Registry
import Corral.Detail.Queue

/-!
# `Channel`: the model

`corral/Channel.h` and the part of `corral/detail/ParkingLot.h` that it uses.

A channel is one buffer with two halves.  An awaiter of either half may hold a *claim* on an
object (on a free slot), counted in `claims_` of its half, from the moment one is available
until its `await_resume()` carries the transfer out.

Waking an awaiter resumes a coroutine handle, and the code behind the handle may call the
channel again before `resume()` returns.  So a library call that wakes an awaiter is a frame
on a stack: `Frame.wake h` is a `wakeAwaiters()` loop of half `h`, and `Frame.unpark h rest` an
`unparkAll()` loop with its local list.  Control is with the user's code between two steps;
the action `resumeReturns` lets the innermost `resume()` return to its loop.

* `Recv` and `Send` are the argument lists of the overloads of `receive()` and `send()`;
* `readTransfer` and `writeTransfer` are the overloads of `tryTransfer()`;
* `step` is one action of the user's code, an `Assertion` that fails ends the run;
* `log` records, in order, what the completed operations returned.
-/

namespace Corral.Channel

open Registry

/-- The assertions of `Channel.h`, and the one of `Queue::pop_front_to()`. -/
inductive Assertion
  /-- `!claimed()` -/
  | notClaimed
  /-- `ready()` -/
  | ready
  /-- `claimedCount <= claims_` -/
  | claimedCount
  /-- `!channel().buf_.empty()` -/
  | notEmpty
  /-- `!channel().closed() && !reallyFull()` -/
  | notClosedNotFull
  /-- `n <= size_` -/
  | popBound
  deriving DecidableEq

/-- Why an action has no successor: an assertion fails, or the awaiter protocol does not allow
the call in this state. -/
inductive Fault
  | assertion (a : Assertion)
  | protocol
  deriving DecidableEq

/-- `std::numeric_limits<size_t>::max()`. -/
def sizeMax : ℕ := 2 ^ 64 - 1

/-- Subtraction of `size_t` values, which wraps below zero. -/
def sizeSub (a b : ℕ) : ℕ := if b ≤ a then a - b else a + 2 ^ 64 - b

inductive Half
  | read
  | write
  deriving DecidableEq

/-- The argument lists of `receive()`: none, an output iterator with a bound, an output range
of a given length (which is only consulted for a forward range). -/
inductive Recv
  | one
  | into (n : ℕ)
  | range (forward : Bool) (len : ℕ)
  deriving DecidableEq

/-- The argument lists of `send()`: a value, an iterator pair, a range.  The flag tells random
access from single pass. -/
inductive Send (T : Type*)
  | one (x : T)
  | iter (randomAccess : Bool) (xs : List T)
  | range (randomAccess : Bool) (xs : List T)
  deriving DecidableEq

/-- What `receive()` returns: an optional, the iterator past the objects written, the number of
objects written. -/
inductive RecvResult (T : Type*)
  | one (x : Option T)
  | into (out : List T)
  | range (out : List T)
  deriving DecidableEq

/-- What `send()` returns: a flag, the iterator to the first object not sent (its distance from
`begin`), the number of objects sent. -/
inductive SendResult
  | one (sent : Bool)
  | iter (pos : ℕ)
  | range (n : ℕ)
  deriving DecidableEq

/-- Where an awaiter stands in the awaiter protocol: not awaited yet, suspended, resumed (its
`await_resume()` is due), cancelled, or finished. -/
inductive Phase
  | constructed
  | parked
  | woken
  | cancelled
  | done
  deriving DecidableEq

section Types

variable (T : Type*)

/-- A live awaiter: its arguments, its claim bit, and its place in the protocol. -/
structure Awaiter where
  args : Recv ⊕ Send T
  claimed : Bool
  phase : Phase

/-- A library call that is waiting for a `resume()` to return. -/
inductive Frame
  | wake (h : Half)
  | unpark (h : Half) (rest : List ℕ)
  deriving DecidableEq

/-- What the log records: the return values of the operations that completed, by an awaiter or
(`none`) by a `tryReceive()` or `trySend()`, and the awaiters that ended without completing. -/
inductive Event
  | received (who : Option ℕ) (res : RecvResult T)
  | sent (who : Option ℕ) (args : Send T) (res : SendResult)
  | cancelled (id : ℕ)

/-- A channel with its awaiters. -/
structure State where
  bounded : Bool
  closed : Bool
  buf : Queue T
  claims : Half → ℕ
  parked : Half → List ℕ
  awaiters : Reg ℕ (Awaiter T)
  nextId : ℕ
  frames : List Frame
  log : List (Event T)

/-- The actions of the user's code. -/
inductive Action
  | newReceive (r : Recv)
  | newSend (w : Send T)
  | awaitSuspend (id : ℕ)
  | awaitResume (id : ℕ)
  | awaitCancel (id : ℕ)
  | destroy (id : ℕ)
  | tryReceive (r : Recv)
  | trySend (w : Send T)
  | close
  | resumeReturns

end Types

variable {T : Type*}

/-- `Channel()`. -/
def unboundedChannel : State T :=
  ⟨false, false, .new 0, fun _ => 0, fun _ => [], ∅, 0, [], []⟩

/-- `Channel(size_t maxSize)`, for `maxSize > 0`. -/
def boundedChannel (maxSize : ℕ) : State T :=
  ⟨true, false, .new maxSize, fun _ => 0, fun _ => [], ∅, 0, [], []⟩

/-! ### Observers -/

def Recv.isNoop : Recv → Bool
  | .one => false
  | .into n => n = 0
  | .range _ len => len = 0

def Send.isNoop : Send T → Bool
  | .one _ => false
  | .iter _ xs => xs.isEmpty
  | .range _ xs => xs.isEmpty

def Awaiter.half (a : Awaiter T) : Half :=
  match a.args with
  | .inl _ => .read
  | .inr _ => .write

def Awaiter.isNoop (a : Awaiter T) : Bool :=
  match a.args with
  | .inl r => r.isNoop
  | .inr w => w.isNoop

/-- `ReadHalf::size()`. -/
def State.size (s : State T) : ℕ := sizeSub s.buf.size (s.claims .read)

/-- `WriteHalf::space()`. -/
def State.space (s : State T) : ℕ :=
  if s.closed then 0
  else if s.bounded then sizeSub (sizeSub s.buf.capacity s.buf.size) (s.claims .write)
  else sizeMax

def State.unclaimedCount (s : State T) : Half → ℕ
  | .read => s.size
  | .write => s.space

def State.reallyFull (s : State T) : Bool := s.bounded && s.buf.capacity == s.buf.size

def State.ready (s : State T) (a : Awaiter T) : Bool := a.claimed || s.closed || a.isNoop

/-! ### Parking and waking -/

/-- `Parked::unlink()`: the awaiter leaves whatever list it is in, also the local list of an
`unparkAll()` in progress. -/
def Frame.unlink (id : ℕ) : Frame → Frame
  | .wake h => .wake h
  | .unpark h rest => .unpark h (rest.erase id)

def State.unlink (s : State T) (id : ℕ) : State T :=
  { s with
    parked := fun h => (s.parked h).erase id
    frames := s.frames.map (Frame.unlink id) }

def State.setAwaiter (s : State T) (id : ℕ) (a : Awaiter T) : State T :=
  { s with awaiters := s.awaiters.insert id a }

/-- `AwaiterBase::claim()` on the awaiter `id` with record `a`. -/
def State.claim (s : State T) (id : ℕ) (a : Awaiter T) : State T :=
  { s with
    awaiters := s.awaiters.insert id { a with claimed := true }
    claims := Function.update s.claims a.half (s.claims a.half + 1) }

/-- The body of the `wakeAwaiters()` loop, up to the `resume()` of the woken awaiter. -/
def State.wakeAwaiters (s : State T) (h : Half) : Except Fault (State T) :=
  if s.unclaimedCount h = 0 then .ok s
  else match s.parked h with
    | [] => .ok s
    | id :: rest => match s.awaiters.lookup id with
      | none => .error .protocol
      | some a =>
        if a.claimed then .error (.assertion .notClaimed)
        else .ok
          { s.claim id { a with phase := .woken } with
            parked := Function.update s.parked h rest
            frames := .wake h :: s.frames }

/-- The body of the `unparkAll()` loop of the write half, with its local list. -/
def State.unparkWriters (s : State T) : List ℕ → Except Fault (State T)
  | [] => .ok s
  | id :: rest => match s.awaiters.lookup id with
    | none => .error .protocol
    | some a => .ok
        { s.setAwaiter id { a with phase := .woken } with
          frames := .unpark .write rest :: s.frames }

/-- The body of the `unparkAll()` loop of the read half; when it is through, `close()` goes on
with the write half. -/
def State.unparkReaders (s : State T) : List ℕ → Except Fault (State T)
  | [] => { s with parked := Function.update s.parked .write [] }.unparkWriters (s.parked .write)
  | id :: rest => match s.awaiters.lookup id with
    | none => .error .protocol
    | some a => .ok
        { s.setAwaiter id { a with phase := .woken } with
          frames := .unpark .read rest :: s.frames }

/-- `Channel::close()`. -/
def State.close (s : State T) : Except Fault (State T) :=
  { s with closed := true, parked := Function.update s.parked .read [] }.unparkReaders
    (s.parked .read)

/-! ### Transfers -/

/-- `claims_ -= claimedCount`. -/
def State.settle (s : State T) (h : Half) (claimedCount : ℕ) : State T :=
  { s with claims := Function.update s.claims h (s.claims h - claimedCount) }

/-- The state in which a receive wakes the writers: the objects are out of the buffer and the
claim is settled. -/
def State.taken (s : State T) (claimedCount : ℕ) (buf : Queue T) : State T :=
  { s with buf := buf }.settle .read claimedCount

/-- The state in which a send wakes the readers. -/
def State.put (s : State T) (claimedCount : ℕ) (buf : Queue T) : State T :=
  { s.settle .write claimedCount with buf := buf }

/-- `ReadHalf::tryTransfer(claimedCount)` after its first assertion. -/
def State.readOne (s : State T) (claimedCount : ℕ) : Except Fault (Option T × State T) :=
  if claimedCount = 0 ∧ s.size = 0 then .ok (none, s)
  else if hb : s.buf.size = 0 then .error (.assertion .notEmpty)
  else
    -- The objects are out before the claim is settled, and both before anybody is woken.
    let (x, buf) := s.buf.popFront hb
    ((s.taken claimedCount buf).wakeAwaiters .write).map (fun t => (some x, t))

/-- The common part of the bulk overloads of `ReadHalf::tryTransfer()`, once the number of
objects to take is known. -/
def State.readBulk (s : State T) (claimedCount n : ℕ) : Except Fault (List T × State T) :=
  if n = 0 then .ok ([], s)
  else if s.buf.size = 0 then .error (.assertion .notEmpty)
  else if hn : n ≤ s.buf.size then
    let (out, buf) := s.buf.popFrontTo n hn
    ((s.taken claimedCount buf).wakeAwaiters .write).map (fun t => (out, t))
  else .error (.assertion .popBound)

/-- The overloads of `ReadHalf::tryTransfer()`. -/
def State.readTransfer (s : State T) (claimedCount : ℕ) (r : Recv) :
    Except Fault (RecvResult T × State T) :=
  if s.claims .read < claimedCount then .error (.assertion .claimedCount)
  else match r with
    | .one => (s.readOne claimedCount).map (Prod.map .one id)
    | .into n => (s.readBulk claimedCount (min n (claimedCount + s.size))).map (Prod.map .into id)
    | .range forward len =>
      let n := claimedCount + s.size
      (s.readBulk claimedCount (if forward then min n len else n)).map (Prod.map .range id)

/-- `WriteHalf::tryTransfer(claimedCount, value)` after its first assertion. -/
def State.writeOne (s : State T) (claimedCount : ℕ) (x : T) : Except Fault (Bool × State T) :=
  if claimedCount = 0 ∧ s.space = 0 then .ok (false, s)
  else if s.closed || s.reallyFull then .error (.assertion .notClosedNotFull)
  else ((s.put claimedCount (s.buf.pushBack x)).wakeAwaiters .read).map (fun t => (true, t))

/-- How many objects a bulk send may still add. -/
def State.avail (s : State T) (claimedCount : ℕ) : ℕ :=
  if s.bounded then claimedCount + s.space else sizeMax

/-- The single-pass loop `while (avail-- && (begin != end)) { push_back(*begin); ++begin; }`:
the buffer, and how far `begin` got. -/
def pushLoop (buf : Queue T) (avail : ℕ) : List T → Queue T × ℕ
  | [] => (buf, 0)
  | x :: xs =>
    if avail = 0 then (buf, 0)
    else
      let (buf', n) := pushLoop (buf.pushBack x) (avail - 1) xs
      (buf', n + 1)

/-- Adding at most `avail` objects to the buffer, all at once or one by one. -/
def addRange (buf : Queue T) (avail : ℕ) (randomAccess : Bool) (xs : List T) : Queue T × ℕ :=
  if randomAccess then
    let n := min xs.length avail
    (buf.append (xs.take n), n)
  else pushLoop buf avail xs

/-- The common part of the bulk overloads of `WriteHalf::tryTransfer()`: the number of objects
sent. -/
def State.writeBulk (s : State T) (claimedCount : ℕ) (randomAccess : Bool) (xs : List T) :
    Except Fault (ℕ × State T) :=
  if xs.isEmpty then .ok (0, s)
  else if s.avail claimedCount = 0 then .ok (0, s)
  else if s.closed || s.reallyFull then .error (.assertion .notClosedNotFull)
  else
    let (buf, n) := addRange s.buf (s.avail claimedCount) randomAccess xs
    ((s.put claimedCount buf).wakeAwaiters .read).map (fun t => (n, t))

/-- The overloads of `WriteHalf::tryTransfer()`. -/
def State.writeTransfer (s : State T) (claimedCount : ℕ) (w : Send T) :
    Except Fault (SendResult × State T) :=
  if s.claims .write < claimedCount then .error (.assertion .claimedCount)
  else match w with
    | .one x => (s.writeOne claimedCount x).map (Prod.map .one id)
    | .iter randomAccess xs =>
      (s.writeBulk claimedCount randomAccess xs).map (Prod.map .iter id)
    | .range randomAccess xs =>
      (s.writeBulk claimedCount randomAccess xs).map (Prod.map .range id)

def State.record (s : State T) (e : Event T) : State T := { s with log := s.log ++ [e] }

/-- A transfer by the awaiter `who`, or by a non-blocking call, with its result recorded. -/
def State.transfer (s : State T) (who : Option ℕ) (claimedCount : ℕ) :
    Recv ⊕ Send T → Except Fault (State T)
  | .inl r => (s.readTransfer claimedCount r).map fun p => p.2.record (.received who p.1)
  | .inr w => (s.writeTransfer claimedCount w).map fun p => p.2.record (.sent who w p.1)

/-! ### Awaiters -/

/-- The constructor of `Awaiter`: claims if it can and needs to. -/
def State.newAwaiter (s : State T) (args : Recv ⊕ Send T) : State T :=
  let a : Awaiter T := ⟨args, false, .constructed⟩
  let s' := { s with nextId := s.nextId + 1 }
  if 0 < s.unclaimedCount a.half ∧ a.isNoop = false then s'.claim s.nextId a
  else s'.setAwaiter s.nextId a

/-- `AwaiterBase::await_suspend()`, called when `await_ready()` is false. -/
def State.awaitSuspend (s : State T) (id : ℕ) (a : Awaiter T) : Except Fault (State T) :=
  if a.phase ≠ .constructed ∨ s.ready a then .error .protocol
  else if a.claimed then .error (.assertion .notClaimed)
  else if 0 < s.unclaimedCount a.half then .ok (s.claim id { a with phase := .woken })
  else .ok
    { s.setAwaiter id { a with phase := .parked } with
      parked := Function.update s.parked a.half (s.parked a.half ++ [id]) }

/-- `Awaiter::await_resume()`, called when `await_ready()` was true or after a resumption. -/
def State.awaitResume (s : State T) (id : ℕ) (a : Awaiter T) : Except Fault (State T) :=
  if ¬ (a.phase = .woken ∨ a.phase = .constructed ∧ s.ready a) then .error .protocol
  else if s.ready a = false then .error (.assertion .ready)
  else (s.setAwaiter id { a with claimed := false, phase := .done }).transfer (some id)
    (if a.claimed then 1 else 0) a.args

/-- `Parked::await_cancel()`, called while the awaiter is suspended; it returns true. -/
def State.awaitCancel (s : State T) (id : ℕ) (a : Awaiter T) : Except Fault (State T) :=
  if a.phase ≠ .parked then .error .protocol
  else .ok (((s.unlink id).setAwaiter id { a with phase := .cancelled }).record (.cancelled id))

/-- `~AwaiterBase()`: gives the claim back. -/
def State.destroy (s : State T) (id : ℕ) (a : Awaiter T) : Except Fault (State T) :=
  -- `unlink()` comes last in the source, in `~Parked()`; a claimed awaiter is in no list, so only
  -- awaiters without a claim are affected by it.
  let s₁ := { s.unlink id with awaiters := s.awaiters.erase id }
  let s₂ := if a.phase = .cancelled ∨ a.phase = .done then s₁ else s₁.record (.cancelled id)
  if a.claimed then (s₂.settle a.half 1).wakeAwaiters a.half else .ok s₂

/-- Apply an operation to a live awaiter. -/
def State.withAwaiter (s : State T) (id : ℕ)
    (f : Awaiter T → Except Fault (State T)) : Except Fault (State T) :=
  match s.awaiters.lookup id with
  | none => .error .protocol
  | some a => f a

/-- A `resume()` returns to the loop that called it. -/
def State.resumeReturns (s : State T) : Except Fault (State T) :=
  match s.frames with
  | [] => .error .protocol
  | .wake h :: fs => { s with frames := fs }.wakeAwaiters h
  | .unpark .read rest :: fs => { s with frames := fs }.unparkReaders rest
  | .unpark .write rest :: fs => { s with frames := fs }.unparkWriters rest

/-- One action of the user's code. -/
def step (s : State T) : Action T → Except Fault (State T)
  | .newReceive r => .ok (s.newAwaiter (.inl r))
  | .newSend w => .ok (s.newAwaiter (.inr w))
  | .awaitSuspend id => s.withAwaiter id (s.awaitSuspend id)
  | .awaitResume id => s.withAwaiter id (s.awaitResume id)
  | .awaitCancel id => s.withAwaiter id (s.awaitCancel id)
  | .destroy id => s.withAwaiter id (s.destroy id)
  | .tryReceive r => s.transfer none 0 (.inl r)
  | .trySend w => s.transfer none 0 (.inr w)
  | .close => s.close
  | .resumeReturns => s.resumeReturns

end Corral.Channel
