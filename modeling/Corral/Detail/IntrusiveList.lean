import Corral.Lib.LinkedRing
import Corral.Lib.Machine

/-!
# `detail::IntrusiveList`: the model

`corral/detail/IntrusiveList.h`: a heap of list heads and items, which point to each other.  A head is
an item as well, which is linked with itself while the list is empty.

* `State`: the objects that exist, and their `next_` and `prev_`;
* `State.unlink`, `State.clear`, `State.pushBack`, `State.moveConstruct` and the others: the member
  functions, in which every access checks that the object exists;
* `Action`, `step`: the construction of lists and items, the member functions, the destruction.

The loop of `clear()` unlinks an object in every iteration.  It is executed as often as there are
objects; if that is not enough, it does not end (`Fault.diverges`).
-/

namespace Corral.IntrusiveList

open LinkedRing

/-- What has the links of an `IntrusiveListItem`: a list, or an item. -/
inductive Node (H I : Type*)
  | head (h : H)
  | item (i : I)
  deriving DecidableEq

/-- Why a call has no outcome: an object is used that does not exist, or constructed that does
(`lifetime`), inside of the functions an object is accessed that does not exist, or through a null
pointer, a loop does not end. -/
inductive Fault
  | lifetime
  | dangling
  | null
  | diverges
  deriving DecidableEq

structure State (H I : Type*) where
  live : Finset (Node H I)
  links : Links (Node H I)

inductive Action (H I : Type*)
  | newList (h : H)
  | newItem (i : I)
  | pushBack (h : H) (i : I)
  | unlink (i : I)
  | erase (h : H) (i : I)
  | popFront (h : H)
  | moveConstruct (h rhs : H)
  | clear (h : H)
  | destroyList (h : H)
  | destroyItem (i : I)

variable {H I : Type*}

def State.init : State H I := ⟨∅, ⟨fun _ => none, fun _ => none⟩⟩

variable [DecidableEq H] [DecidableEq I]

/-- `x->next_` -/
def State.next (s : State H I) (x : Option (Node H I)) : Except Fault (Option (Node H I)) :=
  match x with
  | none => .error .null
  | some x => if x ∈ s.live then .ok (s.links.next x) else .error .dangling

/-- `x->prev_` -/
def State.prev (s : State H I) (x : Option (Node H I)) : Except Fault (Option (Node H I)) :=
  match x with
  | none => .error .null
  | some x => if x ∈ s.live then .ok (s.links.prev x) else .error .dangling

/-- `x->next_ = y` -/
def State.setNext (s : State H I) (x y : Option (Node H I)) : Except Fault (State H I) :=
  match x with
  | none => .error .null
  | some x =>
    if x ∈ s.live then .ok ⟨s.live, s.links.setNext x y⟩ else .error .dangling

/-- `x->prev_ = y` -/
def State.setPrev (s : State H I) (x y : Option (Node H I)) : Except Fault (State H I) :=
  match x with
  | none => .error .null
  | some x =>
    if x ∈ s.live then .ok ⟨s.live, s.links.setPrev x y⟩ else .error .dangling

/-- An object is created, with these links. -/
def State.create (s : State H I) (x : Node H I) (link : Option (Node H I)) : State H I :=
  ⟨insert x s.live, (s.links.setNext x link).setPrev x link⟩

def State.delete (s : State H I) (x : Node H I) : State H I := ⟨s.live.erase x, s.links⟩

/-! ### The member functions -/

/-- `IntrusiveListItem::unlink()` -/
def State.unlink (s : State H I) (x : Node H I) : Except Fault (State H I) :=
  (s.next (some x)).bind fun next =>
  (s.prev (some x)).bind fun prev =>
    (if next.isSome ∧ prev.isSome then
      (s.setPrev next prev).bind fun s =>
        (s.prev (some x)).bind fun prev =>
        (s.next (some x)).bind fun next => s.setNext prev next
    else .ok s).bind fun s => (s.setPrev (some x) none).bind fun s => s.setNext (some x) none

/-- `empty()` -/
def State.empty (s : State H I) (h : H) : Except Fault Bool :=
  (s.next (some (.head h))).map fun next => decide (next = some (.head h))

/-- `contains_one_item()` -/
def State.containsOneItem (s : State H I) (h : H) : Except Fault Bool :=
  (s.empty h).bind fun b =>
    if b then .ok false
    else (s.next (some (.head h))).bind fun first =>
      (s.next first).map fun next => decide (next = some (.head h))

/-- `clear()`, with at most `n` iterations. -/
def State.clearLoop (h : H) : ℕ → State H I → Except Fault (State H I)
  | n, s => (s.empty h).bind fun b =>
    if b then .ok s
    else match n with
      | 0 => .error .diverges
      | n + 1 => (s.next (some (.head h))).bind fun first => match first with
        | none => .error .null
        | some x => (s.unlink x).bind (clearLoop h n)

def State.clear (s : State H I) (h : H) : Except Fault (State H I) := s.clearLoop h s.live.card

/-- `pop_front()` -/
def State.popFront (s : State H I) (h : H) : Except Fault (State H I) :=
  (s.next (some (.head h))).bind fun first => match first with
    | none => .error .null
    | some x => s.unlink x

/-- `push_back()`, after the item has been unlinked. -/
def State.linkBack (s : State H I) (h : H) (i : I) : Except Fault (State H I) :=
  (s.setNext (some (.item i)) (some (.head h))).bind fun s =>
  (s.prev (some (.head h))).bind fun last =>
  (s.setPrev (some (.item i)) last).bind fun s =>
  (s.prev (some (.head h))).bind fun last =>
  (s.setNext last (some (.item i))).bind fun s => s.setPrev (some (.head h)) (some (.item i))

/-- `push_back()` -/
def State.pushBack (s : State H I) (h : H) (i : I) : Except Fault (State H I) :=
  (s.unlink (.item i)).bind fun s => s.linkBack h i

/-- `IntrusiveList(IntrusiveList&&)` -/
def State.moveConstruct (s : State H I) (h rhs : H) : Except Fault (State H I) :=
  let s := s.create (.head h) none
  (s.empty rhs).bind fun b =>
    if b then
      (s.setPrev (some (.head h)) (some (.head h))).bind fun s =>
        s.setNext (some (.head h)) (some (.head h))
    else
      (s.next (some (.head rhs))).bind fun next =>
      (s.setNext (some (.head rhs)) (some (.head rhs))).bind fun s =>
      (s.setNext (some (.head h)) next).bind fun s =>
      (s.prev (some (.head rhs))).bind fun prev =>
      (s.setPrev (some (.head rhs)) (some (.head rhs))).bind fun s =>
      (s.setPrev (some (.head h)) prev).bind fun s =>
      -- the assignment on the right comes first
      (s.prev (some (.head h))).bind fun prev =>
      (s.setNext prev (some (.head h))).bind fun s =>
      (s.next (some (.head h))).bind fun next => s.setPrev next (some (.head h))

/-- The items from `begin()` to `end()`, at most `n` of them; nothing if there are more. -/
def State.items (s : State H I) (h : H) : ℕ → Option (Node H I) → Except Fault (Option (List I))
  | _, none => .error .null
  | n, some (.head h') => if h' = h then .ok (some []) else
    -- an iterator at another list would go on like one at an item
    match n with
    | 0 => .ok none
    | n + 1 => (s.next (some (.head h'))).bind (s.items h n)
  | 0, some (.item _) => .ok none
  | n + 1, some (.item i) => (s.next (some (.item i))).bind fun next =>
    (s.items h n next).map fun l => l.map (i :: ·)

/-! ### The machine -/

/-- One call. -/
def step (s : State H I) : Action H I → Except Fault (State H I)
  | .newList h =>
    if .head h ∈ s.live then .error .lifetime else .ok (s.create (.head h) (some (.head h)))
  | .newItem i => if .item i ∈ s.live then .error .lifetime else .ok (s.create (.item i) none)
  | .pushBack h i =>
    if .head h ∈ s.live ∧ .item i ∈ s.live then s.pushBack h i else .error .lifetime
  | .unlink i => if .item i ∈ s.live then s.unlink (.item i) else .error .lifetime
  | .erase h i =>
    if .head h ∈ s.live ∧ .item i ∈ s.live then s.unlink (.item i) else .error .lifetime
  | .popFront h => if .head h ∈ s.live then s.popFront h else .error .lifetime
  | .moveConstruct h rhs =>
    if .head h ∉ s.live ∧ .head rhs ∈ s.live then s.moveConstruct h rhs else .error .lifetime
  | .clear h => if .head h ∈ s.live then s.clear h else .error .lifetime
  -- the destructor of the base class comes last
  | .destroyList h =>
    if .head h ∈ s.live then
      (s.clear h).bind fun s => (s.unlink (.head h)).map fun s => s.delete (.head h)
    else .error .lifetime
  | .destroyItem i =>
    if .item i ∈ s.live then (s.unlink (.item i)).map fun s => s.delete (.item i)
    else .error .lifetime

/-- `pop_front()` is for lists that have items. -/
def PopsItems (s : State H I) : Action H I → Prop
  | .popFront h => s.empty h = .ok false
  | _ => True

end Corral.IntrusiveList
