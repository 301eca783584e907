import Corral.CBPortal.Model
import Corral.Lib.Trace

/-!
# `CBPortal`: the protocol of `untilCBCalled()` with portals of its own

What can happen to one co_await of `untilCBCalled(initiateFn)` or `untilCBCalled(initiateFn, cancelFn)`,
without the portals, the handles and the executors.

* `Stage`: where the co_await stands;
* `Next`: the events that are possible, and what they lead to;
* `Told c es st`: this has happened so far, in the form with or without a cancellation function;
* `Told.countP_delivered`: one callback at most is delivered;
* `Told.cancelFn_iff`: when the cancellation function is called.
-/

namespace Corral.CBPortal

open Transitions (Trace)

variable {P V : Type*}

/-- Where a co_await stands: `requested` if its cancellation has been requested, `returned` if the
initiate function has returned, `taken` if the task has got the arguments of the callback. -/
inductive Stage (P V : Type*)
  | notStarted
  | skipped
  | awaited (requested returned : Bool)
  | threw (requested : Bool)
  | answered (requested returned : Bool) (p : P) (v : V) (taken : Bool)
  | cancelling
  | cancelled

/-- The events that are possible, with or without a cancellation function. -/
inductive Next (c : Bool) : Stage P V → Event P V → Stage P V → Prop
  | skip : Next c .notStarted .skipped .skipped
  | initiate : Next c .notStarted (.initiated (.inline c)) (.awaited false false)
  | request {r b : Bool} : Next c (.awaited r b) .requested (.awaited true b)
  | return {r : Bool} : Next c (.awaited r false) .returned (.awaited r true)
  | throw {r : Bool} : Next c (.awaited r false) .threw (.threw r)
  | deliver {r b : Bool} {p : P} {v : V} :
      Next c (.awaited r b) (.delivered p v) (.answered r b p v false)
  | resume {r b : Bool} {p : P} {v : V} :
      Next c (.answered r b p v false) (.resumed p v) (.answered r b p v true)
  | returnLate {r : Bool} {p : P} {v : V} :
      Next c (.answered r false p v true) .returned (.answered r true p v true)
  | callCancelFn : c = true → Next c (.awaited true true) .cancelFn .cancelling
  | confirm : Next c .cancelling .confirmed .cancelled

/-- What has happened to the co_await so far. -/
def Told (c : Bool) (es : List (Event P V)) (st : Stage P V) : Prop :=
  Trace (Next c) .notStarted es st

def Event.isCancelFn : Event P V → Bool
  | .cancelFn => true
  | _ => false

def Event.isDelivered : Event P V → Bool
  | .delivered _ _ => true
  | _ => false

def Event.isResumed : Event P V → Bool
  | .resumed _ _ => true
  | _ => false

def Stage.started : Stage P V → Bool
  | .notStarted => false
  | .skipped => false
  | _ => true

def Stage.requested : Stage P V → Bool
  | .awaited r _ => r
  | .threw r => r
  | .answered r _ _ _ _ => r
  | .cancelling => true
  | .cancelled => true
  | _ => false

def Stage.returned : Stage P V → Bool
  | .awaited _ b => b
  | .answered _ b _ _ _ => b
  | .cancelling => true
  | .cancelled => true
  | _ => false

/-- The cancellation function has been called. -/
def Stage.isCancelled : Stage P V → Bool
  | .cancelling => true
  | .cancelled => true
  | _ => false

/-- A callback has been invoked. -/
def Stage.isAnswered : Stage P V → Bool
  | .answered _ _ _ _ _ => true
  | _ => false

/-- The task has got the arguments of the callback. -/
def Stage.isTaken : Stage P V → Bool
  | .answered _ _ _ _ taken => taken
  | _ => false

variable {c : Bool} {es before after : List (Event P V)} {st : Stage P V} {p : P} {v : V}

theorem told_nil : Told c ([] : List (Event P V)) .notStarted := .nil

theorem Told.concat {e : Event P V} {st' : Stage P V} (h : Told c es st) (he : Next c st e st') :
    Told c (es ++ [e]) st' :=
  Trace.concat h he

/-! ### What the stage tells of the events -/

theorem Told.initiated_iff (h : Told c es st) :
    .initiated (.inline c) ∈ es ↔ st.started = true := by
  refine h.mem_iff (Q := fun st => st.started = true) nofun fun st e st' he => ?_
  cases he <;> simp [Stage.started]

/-- The form is that of the call of the initiate function. -/
theorem Told.proxy_eq {proxy : Proxy} (h : Told c es st) (hm : .initiated proxy ∈ es) :
    proxy = .inline c := by
  obtain ⟨before, after, rfl⟩ := List.append_of_mem hm
  obtain ⟨st₁, st₂, -, he⟩ := Trace.split h
  cases he
  rfl

theorem Told.skipped_iff (h : Told c es st) : .skipped ∈ es ↔ st = .skipped := by
  refine h.mem_iff (Q := fun st => st = .skipped) nofun fun st e st' he => ?_
  cases he <;> simp

theorem Told.requested_iff (h : Told c es st) : .requested ∈ es ↔ st.requested = true := by
  refine h.mem_iff (Q := fun st => st.requested = true) nofun fun st e st' he => ?_
  cases he <;> simp [Stage.requested]

theorem Told.returned_iff (h : Told c es st) : .returned ∈ es ↔ st.returned = true := by
  refine h.mem_iff (Q := fun st => st.returned = true) nofun fun st e st' he => ?_
  cases he <;> simp [Stage.returned]

theorem Told.delivered_iff (h : Told c es st) :
    .delivered p v ∈ es ↔ ∃ r b taken, st = .answered r b p v taken := by
  refine h.mem_iff (Q := fun st => ∃ r b taken, st = .answered r b p v taken) nofun
    fun st e st' he => ?_
  cases he <;> simp

theorem Told.resumed_iff (h : Told c es st) :
    .resumed p v ∈ es ↔ ∃ r b, st = .answered r b p v true := by
  refine h.mem_iff (Q := fun st => ∃ r b, st = .answered r b p v true) nofun fun st e st' he => ?_
  cases he <;> simp

theorem Told.cancelFn_mem_iff (h : Told c es st) : .cancelFn ∈ es ↔ st.isCancelled = true := by
  refine h.mem_iff (Q := fun st => st.isCancelled = true) nofun fun st e st' he => ?_
  cases he <;> simp [Stage.isCancelled]

/-- No callback has been invoked. -/
theorem Told.isAnswered_iff (h : Told c es st) :
    (∀ p v, .delivered p v ∉ es) ↔ st.isAnswered = false := by
  simp only [h.delivered_iff]
  cases st <;> simp [Stage.isAnswered]

/-- One callback at most is delivered. -/
theorem Told.countP_delivered (h : Told c es st) : es.countP Event.isDelivered ≤ 1 := by
  refine h.countP_le_one (Q := fun st => st.isAnswered = true) (fun st e st' he hq => ?_)
    fun st e st' he hp => ?_
  · cases he <;> simp_all [Stage.isAnswered, Event.isDelivered]
  · cases he <;> simp_all [Stage.isAnswered, Event.isDelivered]

/-- The task gets the arguments of a callback at most once. -/
theorem Told.countP_resumed (h : Told c es st) : es.countP Event.isResumed ≤ 1 := by
  refine h.countP_le_one (Q := fun st => st.isTaken = true) (fun st e st' he hq => ?_)
    fun st e st' he hp => ?_
  · cases he <;> simp_all [Stage.isTaken, Event.isResumed]
  · cases he <;> simp_all [Stage.isTaken, Event.isResumed]

/-! ### The cancellation function -/

/-- It is called at most once. -/
theorem Told.countP_cancelFn (h : Told c es st) : es.countP Event.isCancelFn ≤ 1 := by
  refine h.countP_le_one (Q := fun st => st.isCancelled = true) (fun st e st' he hq => ?_)
    fun st e st' he hp => ?_
  · cases he <;> simp_all [Stage.isCancelled, Event.isCancelFn]
  · cases he <;> simp_all [Stage.isCancelled, Event.isCancelFn]

/-- What has happened before it is called. -/
theorem Told.before_cancelFn (h : Told c (before ++ .cancelFn :: after) st) : c = true ∧
    .initiated (.inline true) ∈ before ∧ .requested ∈ before ∧ .returned ∈ before ∧
      ∀ p v, .delivered p v ∉ before := by
  obtain ⟨st₁, st₂, h₁, he⟩ := Trace.split h
  have h₁ : Told c before st₁ := h₁
  cases he with
  | callCancelFn hc =>
    subst hc
    exact ⟨rfl, h₁.initiated_iff.2 rfl, h₁.requested_iff.2 rfl, h₁.returned_iff.2 rfl,
      h₁.isAnswered_iff.2 rfl⟩

/-- Without a cancellation function there is none to call, and no cancellation is confirmed. -/
theorem Told.isCancelled_eq_false (h : Told false es st) : st.isCancelled = false := by
  refine h.invariant (I := fun _ st => st.isCancelled = false) rfl fun es st e st' hst he => ?_
  cases he with
  | callCancelFn hc => cases hc
  | confirm => cases hst
  | _ => rfl

/-- What has happened before a cancellation is confirmed. -/
theorem Told.before_confirmed (h : Told c (before ++ .confirmed :: after) st) :
    c = true ∧ .cancelFn ∈ before := by
  obtain ⟨st₁, st₂, h₁, he⟩ := Trace.split h
  have h₁ : Told c before st₁ := h₁
  cases he with
  | confirm =>
    refine ⟨?_, h₁.cancelFn_mem_iff.2 rfl⟩
    cases c with
    | true => rfl
    | false => cases h₁.isCancelled_eq_false

/-- The code in control is not about to call the cancellation function, or to confirm. -/
def Stage.Settled (c : Bool) (st : Stage P V) : Prop :=
  st ≠ .cancelling ∧ (c = true → st ≠ .awaited true true)

/-- When the cancellation function is called. -/
theorem Told.cancelFn_iff (h : Told true es st) (hs : st.Settled true) :
    .cancelFn ∈ es ↔ .requested ∈ es ∧ .returned ∈ es ∧ ∀ p v, .delivered p v ∉ es := by
  rw [h.cancelFn_mem_iff, h.requested_iff, h.returned_iff, h.isAnswered_iff]
  cases st with
  | awaited r b =>
    have hne := hs.2 rfl
    cases r <;> cases b <;> simp_all [Stage.isCancelled, Stage.requested, Stage.returned]
  | _ => simp [Stage.isCancelled, Stage.requested, Stage.returned, Stage.isAnswered]

end Corral.CBPortal
