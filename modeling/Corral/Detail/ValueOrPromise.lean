import Corral.Lib.Machine
import Corral.Lib.TaggedWord

/-!
# `detail::ValueOrPromise`: the model

The class of `corral/detail/TaskAwaiter.h`: a machine word that is a pointer to a promise, a value, or a
pointer to a value, with a tag in its two low bits.

* `ValueType`: what the class knows of the type of the values, and how a small value lies in memory;
* `ofValue`, `take`, `hasValue`, `isEmpty` and the others: the functions on one word;
* `State`, `Action`, `step`: any number of objects, the values on the heap, and the promises that the
  destructors have destroyed.

The heap is addressed by words.  Where `new` puts a value is part of the action: any address that is not
zero, not in use, and aligned like a promise.
-/

namespace Corral.ValueOrPromise

open TaggedWord

/-- A type that is trivially copyable and destructible, and not larger than a word of `n` bytes: the
bytes of its values, in the little-endian order of a word, and back.  An empty type has one value. -/
structure Inline (n : ℕ) (V : Type*) where
  size : ℕ
  size_le : size ≤ n
  isEmpty : Bool
  bytes : V → BitVec (8 * size)
  value : BitVec (8 * size) → V
  value_bytes : ∀ v, value (bytes v) = v
  value_isEmpty : isEmpty = true → ∀ b v, value b = v

/-- `ValueOrPromise<T>`, where a word has `n` bytes: how the values lie in memory, if `FitsInline`.
A word is not larger than the `uint64_t` that `take()` returns the bits in. -/
structure ValueType (n : ℕ) (V : Type*) where
  word : 0 < n
  word_le : n ≤ 8
  inline : Option (Inline n V)

/-- A machine word. -/
abbrev Word (n : ℕ) := BitVec (8 * n)

def typeBits : ℕ := 2

variable {n : ℕ} {V : Type*}

def mask : Word n := TaggedWord.mask (8 * n) typeBits

def isPromise : Word n := BitVec.ofNat _ 0

def isValuePtr : Word n := BitVec.ofNat _ 1

def isInlineValue : Word n := BitVec.ofNat _ 2

def isShiftedInlineValue : Word n := BitVec.ofNat _ 3

/-- The word with the bytes of the value, as `memcpy()` leaves it. -/
def Inline.store (i : Inline n V) (v : V) : Word n :=
  if i.isEmpty then 0 else (i.bytes v).setWidth (8 * n)

/-- The value in the first bytes of a word. -/
def Inline.load (i : Inline n V) (bits : Word n) : V := i.value (bits.setWidth (8 * i.size))

/-- `ValueOrPromise(Value)`, if the value is stored inline. -/
def ofValue (ty : ValueType n V) (v : V) : Option (Word n) :=
  match ty.inline with
  | none => none
  | some i =>
    if i.store v &&& mask = 0 then some (i.store v ||| isInlineValue)
    else if i.store v &&& (mask <<< (8 * n - typeBits)) = 0 then
      some ((i.store v <<< typeBits) ||| isShiftedInlineValue)
    else none

/-- `isEmpty()` -/
def isEmpty (bits : Word n) : Bool := bits == 0

/-- `isConsumed()` -/
def isConsumed (bits : Word n) : Bool := bits == isValuePtr

/-- `hasPromise()` -/
def hasPromise (bits : Word n) : Bool := (bits &&& mask) == isPromise

/-- `hasValue()` -/
def hasValue (bits : Word n) : Bool := !hasPromise bits

/-- What `take()` returns: the type and the bits without it.  The object is consumed. -/
def take (bits : Word n) : Word n × Word n := (bits &&& mask, bits &&& ~~~mask)

def consumed : Word n := 0 ||| isValuePtr

/-- Why a call has no outcome: an object is used that does not exist, or constructed that does, or
`new` does not return such an address (`lifetime`); an assertion fails; a value is accessed on the heap
that is not there. -/
inductive Fault
  | lifetime
  | assertion
  | dangling
  deriving DecidableEq

/-- What a call returns. -/
inductive Output (n : ℕ) (V : Type*)
  | value (v : V)
  | promise (p : Word n)
  deriving DecidableEq

/-- The objects by their names; the values on the heap; the promises that have been destroyed; what the
calls have returned. -/
structure State (O : Type*) (n : ℕ) (V : Type*) where
  bits : O → Option (Word n)
  heap : Word n → Option V
  destroyed : List (Word n)
  outputs : List (Output n V)

inductive Action (O : Type*) (n : ℕ) (V : Type*)
  | construct (o : O)
  | constructPromise (o : O) (p : Word n)
  | constructValue (o : O) (v : V) (address : Word n)
  | moveConstruct (o rhs : O)
  | moveAssign (o rhs : O)
  | promise (o : O)
  | takePromise (o : O)
  | takeValue (o : O)
  | destroy (o : O)

variable {O : Type*}

def State.init : State O n V := ⟨fun _ => none, fun _ => none, [], []⟩

variable [DecidableEq O]

def State.setBits (s : State O n V) (o : O) (b : Option (Word n)) : State O n V :=
  { s with bits := Function.update s.bits o b }

def State.output (s : State O n V) (x : Output n V) : State O n V :=
  { s with outputs := s.outputs ++ [x] }

/-- The object does not exist yet. -/
def State.create (s : State O n V) (o : O) (f : Except Fault (State O n V)) :
    Except Fault (State O n V) :=
  if (s.bits o).isSome then .error .lifetime else f

def State.withBits (s : State O n V) (o : O) (f : Word n → Except Fault (State O n V)) :
    Except Fault (State O n V) :=
  match s.bits o with
  | none => .error .lifetime
  | some b => f b

/-- A pointer to a promise, or to a value: neither null nor with any of the low bits set. -/
def isPointer (p : Word n) : Bool := p != 0 && (p &&& mask) == 0

/-- `~ValueOrPromise()` -/
def State.release (s : State O n V) (b : Word n) : Except Fault (State O n V) :=
  let (type, bits) := take b
  if bits = 0 then .ok s
  else if type = isPromise then .ok { s with destroyed := s.destroyed ++ [bits] }
  else if type = isValuePtr then
    if (s.heap bits).isSome then .ok { s with heap := Function.update s.heap bits none }
    else .error .dangling
  else .ok s

/-- `takeValue()` -/
def State.takeValue (ty : ValueType n V) (s : State O n V) (o : O) (b : Word n) :
    Except Fault (State O n V) :=
  let s := s.setBits o (some consumed)
  let (type, bits) := take b
  if type = isValuePtr then
    if bits = 0 then .error .assertion
    else match s.heap bits with
      | none => .error .dangling
      | some v => .ok ({ s with heap := Function.update s.heap bits none }.output (.value v))
  else match ty.inline with
    | none => .error .assertion
    | some i =>
      if type = isInlineValue ∨ type = isShiftedInlineValue then
        let bits := if type = isShiftedInlineValue then bits >>> typeBits else bits
        .ok (s.output (.value (i.load bits)))
      else .error .assertion

/-- One call. -/
def step (ty : ValueType n V) (s : State O n V) : Action O n V → Except Fault (State O n V)
  | .construct o => s.create o (.ok (s.setBits o (some 0)))
  | .constructPromise o p => s.create o
    (if isPointer p then .ok (s.setBits o (some (p ||| isPromise))) else .error .lifetime)
  | .constructValue o v address => s.create o (match ofValue ty v with
    | some b => .ok (s.setBits o (some b))
    | none =>
      if isPointer address ∧ (s.heap address).isNone then
        .ok { s.setBits o (some (address ||| isValuePtr)) with
          heap := Function.update s.heap address (some v) }
      else .error .lifetime)
  | .moveConstruct o rhs => s.create o
    (s.withBits rhs fun b => .ok ((s.setBits rhs (some 0)).setBits o (some b)))
  -- the parameter is constructed from `rhs`, and its destructor gets the old bits
  | .moveAssign o rhs => s.withBits rhs fun b =>
    (s.setBits rhs (some 0)).withBits o fun old =>
      ((s.setBits rhs (some 0)).setBits o (some b)).release old
  | .promise o => s.withBits o fun b =>
    if b &&& mask = isPromise then .ok (s.output (.promise b)) else .error .assertion
  | .takePromise o => s.withBits o fun b =>
    if b ≠ 0 ∧ b &&& mask = isPromise then
      .ok ((s.setBits o (some 0)).output (.promise (b &&& ~~~mask)))
    else .error .assertion
  | .takeValue o => s.withBits o fun b => s.takeValue ty o b
  | .destroy o => s.withBits o fun b => (s.setBits o none).release b

end Corral.ValueOrPromise
