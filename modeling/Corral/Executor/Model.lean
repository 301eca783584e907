import Corral.Lib.Machine

/-!
# `Executor`: the model

`corral/Executor.h`: `runSoon()`, `schedule()`, `drain()` and `capture()` of any number of
executors on one thread, none of which is destroyed.

The calls nest.  The call stack is part of the state: a `drain(tasks)` in progress, the user
callback that it is executing, the function passed to a `capture()` in progress.  When the
innermost frame is a drain, the action `tick` executes the next iteration of its loop; otherwise
control is with the user's code, whose actions are `runSoon`, `drain`, `capture`, and `ret`, the
return from the callback or from the captured function.

* `ListRef` names the task lists: the `buffer_` of an executor and the `tmp` of a `capture()`;
  a list is modelled by the contents of the `Queue`;
* `running` is `running_ != nullptr`; `Frame.drain` remembers whether the call has set it;
* `submitted` and `executed` record the user callbacks by list.
-/

namespace Corral.Executor

/-- The task lists. -/
inductive ListRef (E : Type*)
  | buffer (e : E)
  | tmp (e : E) (k : ℕ)
  deriving DecidableEq

/-- The executor that a list belongs to. -/
def ListRef.owner {E : Type*} : ListRef E → E
  | .buffer e => e
  | .tmp e _ => e

/-- What a list holds: a callback of the user, or the `runOnce()` of another executor. -/
inductive Task (E : Type*)
  | callback (id : ℕ)
  | runOnce (e : E)
  deriving DecidableEq

/-- The calls in progress. -/
inductive Frame (E : Type*)
  /-- `drain(tasks)` of `e`: the previous `current()`, and whether it has set `running_` -/
  | drain (e : E) (tasks : ListRef E) (prev : Option E) (first : Bool)
  /-- a user callback that was taken from `tasks` -/
  | callback (id : ℕ) (tasks : ListRef E)
  /-- the function passed to `capture()` of `e`, with `oldReady` -/
  | capture (e : E) (k : ℕ) (oldReady : ListRef E)
  deriving DecidableEq

/-- Why an action has no successor: it is not the turn of whoever takes it, or the code would
recurse forever. -/
inductive Fault
  | control
  | diverges
  deriving DecidableEq

/-- All executors of a thread. -/
structure State (E : Type*) where
  lists : ListRef E → List (Task E)
  ready : E → ListRef E
  running : E → Bool
  scheduled : E → Option E
  current : Option E
  stack : List (Frame E)
  nextTmp : ℕ
  nextId : ℕ
  submitted : ListRef E → List ℕ
  executed : ListRef E → List ℕ

inductive Action (E : Type*)
  | runSoon (e : E)
  | drain (e : E)
  | capture (e : E)
  | ret
  | tick

/-- Idle executors. -/
def State.init {E : Type*} : State E :=
  ⟨fun _ => [], .buffer, fun _ => false, fun _ => none, none, [], 0, 0, fun _ => [], fun _ => []⟩

variable {E L : Type*} [DecidableEq E] [DecidableEq L] (loop : E → L)

/-- The list gets one more task. -/
def State.emplaceBack (s : State E) (l : ListRef E) (x : Task E) : State E :=
  { s with lists := Function.update s.lists l (s.lists l ++ [x]) }

/-- The list loses its front task. -/
def State.popFront (s : State E) (l : ListRef E) (rest : List (Task E)) : State E :=
  { s with lists := Function.update s.lists l rest }

/-- `scheduled_ = nullptr` of `e`. -/
def State.unschedule (s : State E) (e : E) : State E :=
  { s with scheduled := Function.update s.scheduled e none }

/-- Entering `drain(tasks)` of `e`, up to its loop. -/
def State.drain (s : State E) (e : E) (tasks : ListRef E) : State E :=
  { s with
    current := some e
    running := Function.update s.running e true
    stack := .drain e tasks s.current (!s.running e) :: s.stack }

/-- `runOnce()` of `e`. -/
def State.runOnce (s : State E) (e : E) : State E :=
  if s.running e then s.unschedule e else (s.unschedule e).drain e (s.ready e)

/-- `schedule(c)` on `e`: the callback gets the next identity. -/
def State.schedule (s : State E) (e : E) : State E :=
  { s.emplaceBack (s.ready e) (.callback s.nextId) with
    nextId := s.nextId + 1
    submitted := Function.update s.submitted (s.ready e) (s.submitted (s.ready e) ++ [s.nextId]) }

/-- `scheduled_ = current(); scheduled_->runSoon([this]{ runOnce(); })`, before the nested call
gets to `runSoon()`. -/
def State.scheduleOn (s : State E) (e c : E) : State E :=
  { s with scheduled := Function.update s.scheduled e (some c) }.emplaceBack (s.ready c)
    (.runOnce e)

/-- `runSoon()` of `e`.  The nested `runSoon()` of the current executor does nothing if that one
is running or scheduled; otherwise it would call itself without end. -/
def State.runSoon (s : State E) (e : E) : Except Fault (State E) :=
  if s.running e ∨ (s.scheduled e).isSome then .ok s
  else match s.current with
    | none => .ok (s.runOnce e)
    | some c =>
      if loop c = loop e then
        let s' := s.scheduleOn e c
        -- the nested `runSoon()`, on the current executor
        if s'.running c ∨ (s'.scheduled c).isSome then .ok s' else .error .diverges
      else .ok (s.runOnce e)

/-- `capture(fn)` of `e`, up to the call of `fn`. -/
def State.capture (s : State E) (e : E) : State E :=
  { s with
    lists := Function.update s.lists (.tmp e s.nextTmp) []
    ready := Function.update s.ready e (.tmp e s.nextTmp)
    stack := .capture e s.nextTmp (s.ready e) :: s.stack
    nextTmp := s.nextTmp + 1 }

/-- The end of the loop of a `drain()` of `e`. -/
def State.leave (s : State E) (e : E) (prev : Option E) (first : Bool)
    (below : List (Frame E)) : State E :=
  { s with
    current := prev
    running := if first then Function.update s.running e false else s.running
    stack := below }

/-- One iteration of the loop of `drain(tasks)`, with the front task taken out. -/
def State.execute (s : State E) (tasks : ListRef E) (rest : List (Task E)) :
    Task E → State E
  | .callback id =>
    { s.popFront tasks rest with
      stack := .callback id tasks :: s.stack
      executed := Function.update s.executed tasks (s.executed tasks ++ [id]) }
  | .runOnce e => (s.popFront tasks rest).runOnce e

/-- The drain in control executes an iteration of its loop. -/
def State.tick (s : State E) : Except Fault (State E) :=
  match s.stack with
  | .drain e tasks prev first :: below => match s.lists tasks with
    | [] => .ok (s.leave e prev first below)
    | x :: rest => .ok (s.execute tasks rest x)
  | _ => .error .control

/-- Return from a callback, or from a captured function to its `capture()`. -/
def State.ret (s : State E) : Except Fault (State E) :=
  match s.stack with
  | .callback _ _ :: below => .ok { s with stack := below }
  | .capture e k oldReady :: below =>
    .ok ({ s with ready := Function.update s.ready e oldReady, stack := below }.drain e (.tmp e k))
  | _ => .error .control

/-- Control is with the user's code. -/
def userInControl : List (Frame E) → Bool
  | .drain _ _ _ _ :: _ => false
  | _ => true

/-- One action. -/
def step (s : State E) : Action E → Except Fault (State E)
  | .runSoon e =>
    if userInControl s.stack then (s.schedule e).runSoon loop e else .error .control
  | .drain e => if userInControl s.stack then .ok (s.drain e (s.ready e)) else .error .control
  | .capture e => if userInControl s.stack then .ok (s.capture e) else .error .control
  | .ret => s.ret
  | .tick => s.tick

end Corral.Executor
