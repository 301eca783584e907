import Mathlib.Tactic

/-!
# `AwaiterStateChecker`

The awaiter state machine of `corral/detail/utility.h`: which calls the user of an awaiter may
make, in which order, given what the awaiter has answered so far.  Every function yields the state
after a call, or nothing if the call is not allowed.

* `State.told`: the states in which the user takes the operation to be over;
* the lemmas say which calls lead to such a state, and which require one.
-/

namespace Corral.AwaiterStateChecker

inductive State
  | initial
  | notReady
  | initialCxlPend
  | cancelPending
  | readyImmediately
  | running
  | cancelling
  | readyAfterCancel
  | ready
  | cancelled
  | done
  deriving DecidableEq

/-- The checker of one awaiter. -/
structure Checker where
  state : State
  hasExecutor : Bool
  deriving DecidableEq

/-- Nothing has been done with the awaiter yet. -/
def Checker.init : Checker := ⟨.initial, false⟩

def Checker.set (c : Checker) (st : State) : Checker := { c with state := st }

variable {c c' : Checker}

/-- `await_ready()` has returned `val`. -/
def Checker.readyReturned (c : Checker) (val : Bool) : Option Checker :=
  match c.state with
  | .initial | .notReady => some (c.set (if val then .readyImmediately else .notReady))
  | .initialCxlPend | .cancelPending =>
    some (c.set (if val then .readyAfterCancel else .cancelPending))
  | .readyImmediately | .readyAfterCancel => if val then some c else none
  | _ => none

/-- `await_early_cancel()` has returned `val`. -/
def Checker.earlyCancelReturned (c : Checker) (val : Bool) : Option Checker :=
  match c.state with
  | .initial => some (c.set (if val then .cancelled else .initialCxlPend))
  | .notReady => some (c.set (if val then .cancelled else .cancelPending))
  | .readyImmediately => some (c.set (if val then .cancelled else .readyAfterCancel))
  | _ => none

/-- `await_set_executor()` is about to be called. -/
def Checker.aboutToSetExecutor (c : Checker) : Option Checker :=
  match c.state with
  | .notReady | .cancelPending | .readyImmediately | .initial | .initialCxlPend =>
    some { c with hasExecutor := true }
  | _ => none

/-- `await_suspend()` is about to be called. -/
def Checker.aboutToSuspend (c : Checker) : Option Checker :=
  if c.hasExecutor then match c.state with
    | .notReady => some (c.set .running)
    | .cancelPending => some (c.set .cancelling)
    | _ => none
  else none

/-- `await_suspend()` has thrown. -/
def Checker.suspendThrew (c : Checker) : Option Checker :=
  match c.state with
  | .running | .cancelling => some (c.set .done)
  | _ => none

/-- `await_cancel()` is about to be called. -/
def Checker.aboutToCancel (c : Checker) : Option Checker :=
  if c.state = .running then some (c.set .cancelling) else none

/-- `await_cancel()` has returned `val`. -/
def Checker.cancelReturned (c : Checker) (val : Bool) : Option Checker :=
  if val then if c.state = .cancelling then some (c.set .cancelled) else none else some c

/-- The handle that was passed to `await_suspend()` is resumed. -/
def Checker.resumed (c : Checker) : Option Checker :=
  match c.state with
  | .running => some (c.set .ready)
  | .cancelling => some (c.set .readyAfterCancel)
  | _ => none

/-- `await_must_resume()` has returned `val`. -/
def Checker.mustResumeReturned (c : Checker) (val : Bool) : Option Checker :=
  if c.state = .readyAfterCancel then some (c.set (if val then .ready else .cancelled)) else none

/-- `await_resume()` is about to be called. -/
def Checker.aboutToResume (c : Checker) : Option Checker :=
  if c.state = .readyImmediately ∨ c.state = .ready then some (c.set .done) else none

/-- The awaiter may be destroyed. -/
def Checker.mayReset (c : Checker) : Bool :=
  c.state = .cancelled ∨ c.state = .done ∨ c.state = .initial

/-! ### What the user has been told -/

/-- The user takes the operation to be over, and has not taken its result yet. -/
def State.told : State → Bool
  | .readyImmediately => true
  | .readyAfterCancel => true
  | .ready => true
  | _ => false

theorem told_of_readyReturned {val : Bool} (h : c.readyReturned val = some c')
    (ht : c'.state.told = true) : val = true := by
  cases val with
  | true => rfl
  | false =>
    unfold Checker.readyReturned at h
    split at h <;> cases h <;> cases ht

theorem told_of_earlyCancelReturned {val : Bool} (h : c.earlyCancelReturned val = some c')
    (ht : c'.state.told = true) : c.state.told = true := by
  unfold Checker.earlyCancelReturned at h
  split at h
  · cases h
    cases val <;> cases ht
  · cases h
    cases val <;> cases ht
  · rename_i hc
    rw [hc]
    rfl
  · cases h

theorem cancelled_of_earlyCancelReturned (h : c.earlyCancelReturned true = some c') :
    c'.state = .cancelled := by
  unfold Checker.earlyCancelReturned at h
  split at h <;> cases h <;> rfl

theorem not_told_of_aboutToSuspend (h : c.aboutToSuspend = some c') : c'.state.told = false := by
  unfold Checker.aboutToSuspend at h
  split_ifs at h
  split at h <;> cases h <;> rfl

theorem not_told_of_aboutToCancel (h : c.aboutToCancel = some c') : c'.state.told = false := by
  unfold Checker.aboutToCancel at h
  split_ifs at h
  cases h
  rfl

theorem told_of_cancelReturned {val : Bool} (h : c.cancelReturned val = some c')
    (ht : c'.state.told = true) : c.state.told = true := by
  unfold Checker.cancelReturned at h
  split_ifs at h
  · cases h
    cases ht
  · cases h
    exact ht

theorem cancelled_of_cancelReturned (h : c.cancelReturned true = some c') :
    c'.state = .cancelled := by
  simp only [Checker.cancelReturned, if_true] at h
  split_ifs at h
  cases h
  rfl

theorem told_of_mustResumeReturned {val : Bool} (h : c.mustResumeReturned val = some c') :
    c.state.told = true := by
  unfold Checker.mustResumeReturned at h
  split at h
  · rename_i hc
    rw [hc]
    rfl
  · cases h

/-- An awaiter that has been cancelled is not used any more. -/
theorem readyReturned_of_cancelled {val : Bool} (h : c.state = .cancelled) :
    c.readyReturned val = none := by
  simp only [Checker.readyReturned, h]

theorem told_of_aboutToResume (h : c.aboutToResume = some c') : c.state.told = true := by
  unfold Checker.aboutToResume at h
  split_ifs at h with hc
  rcases hc with hc | hc <;> rw [hc] <;> rfl

/-! ### Awaiters that are not in progress -/

theorem resumed_eq_none (h : ¬ (c.state = .running ∨ c.state = .cancelling)) : c.resumed = none := by
  unfold Checker.resumed
  split
  · exact absurd (.inl ‹_›) h
  · exact absurd (.inr ‹_›) h
  · rfl

theorem suspendThrew_eq_none (h : ¬ (c.state = .running ∨ c.state = .cancelling)) :
    c.suspendThrew = none := by
  unfold Checker.suspendThrew
  split
  · exact absurd (.inl ‹_›) h
  · exact absurd (.inr ‹_›) h
  · rfl

/-! ### Suspension -/

/-- `await_suspend()` has been called, and neither has the handle been resumed since nor the
cancellation been confirmed. -/
def State.suspended : State → Bool
  | .running => true
  | .cancelling => true
  | _ => false

theorem suspended_of_readyReturned {val : Bool} (h : c.readyReturned val = some c') :
    c.state.suspended = false ∧ c'.state.suspended = false := by
  obtain ⟨st, ex⟩ := c
  cases st <;> cases val <;> cases h <;> exact ⟨rfl, rfl⟩

theorem suspended_of_earlyCancelReturned {val : Bool} (h : c.earlyCancelReturned val = some c') :
    c.state.suspended = false ∧ c'.state.suspended = false := by
  obtain ⟨st, ex⟩ := c
  cases st <;> cases val <;> cases h <;> exact ⟨rfl, rfl⟩

theorem suspended_of_aboutToSuspend
    (h : (c.aboutToSetExecutor).bind Checker.aboutToSuspend = some c') :
    c.state.suspended = false ∧ c'.state.suspended = true := by
  obtain ⟨st, ex⟩ := c
  cases st <;> cases h <;> exact ⟨rfl, rfl⟩

theorem suspended_of_resumed (h : c.resumed = some c') :
    c.state.suspended = true ∧ c'.state.suspended = false ∧ c'.state.told = true := by
  obtain ⟨st, ex⟩ := c
  cases st <;> cases h <;> exact ⟨rfl, rfl, rfl⟩

theorem suspended_of_aboutToResume (h : c.aboutToResume = some c') :
    c.state.suspended = false ∧ c'.state.suspended = false := by
  obtain ⟨st, ex⟩ := c
  cases st <;> cases h <;> exact ⟨rfl, rfl⟩

theorem suspended_of_mayReset (h : c.mayReset = true) : c.state.suspended = false := by
  obtain ⟨st, ex⟩ := c
  cases st <;> first | rfl | cases h

/-! ### Before the operation -/

/-- The operation has not begun, and the user has not been told that there is nothing to wait for. -/
def State.fresh : State → Bool
  | .initial => true
  | .notReady => true
  | .initialCxlPend => true
  | .cancelPending => true
  | _ => false

theorem fresh_of_readyReturned (h : c.readyReturned false = some c') :
    c.state.fresh = true ∧ c'.state.fresh = true := by
  obtain ⟨st, ex⟩ := c
  cases st <;> cases h <;> exact ⟨rfl, rfl⟩

theorem fresh_of_earlyCancelReturned (h : c.earlyCancelReturned false = some c') :
    c'.state.fresh = c.state.fresh ∧ c.state.suspended = false := by
  obtain ⟨st, ex⟩ := c
  cases st <;> cases h <;> exact ⟨rfl, rfl⟩

theorem state_of_aboutToSetExecutor (h : c.aboutToSetExecutor = some c') :
    c'.state = c.state ∧ c.state.suspended = false := by
  obtain ⟨st, ex⟩ := c
  cases st <;> cases h <;> exact ⟨rfl, rfl⟩

theorem fresh_of_aboutToSuspend (h : c.aboutToSuspend = some c') :
    c.state.fresh = true ∧ c'.state.suspended = true := by
  obtain ⟨st, ex⟩ := c
  cases ex <;> cases st <;> cases h <;> exact ⟨rfl, rfl⟩

theorem suspended_of_aboutToCancel (h : c.aboutToCancel = some c') :
    c.state.suspended = true ∧ c'.state.suspended = true := by
  obtain ⟨st, ex⟩ := c
  cases st <;> cases h
  exact ⟨rfl, rfl⟩

theorem fresh_of_mustResumeReturned {val : Bool} (h : c.mustResumeReturned val = some c') :
    c'.state.fresh = false := by
  obtain ⟨st, ex⟩ := c
  cases st <;> cases val <;> cases h <;> rfl

theorem fresh_of_aboutToResume (h : c.aboutToResume = some c') : c'.state.fresh = false := by
  obtain ⟨st, ex⟩ := c
  cases st <;> cases h <;> rfl

theorem resumed_of_suspended (h : c.state.suspended = true) :
    ∃ c', c.resumed = some c' ∧ c'.state.fresh = false := by
  obtain ⟨st, ex⟩ := c
  cases st
  case running => exact ⟨⟨.ready, ex⟩, rfl, rfl⟩
  case cancelling => exact ⟨⟨.readyAfterCancel, ex⟩, rfl, rfl⟩
  all_goals cases h

theorem not_fresh_of_suspended {st : State} (h : st.suspended = true) :
    st.fresh = false ∧ st.told = false := by
  cases st <;> cases h <;> exact ⟨rfl, rfl⟩

theorem not_told_of_fresh {st : State} (h : st.fresh = true) :
    st.told = false ∧ st.suspended = false := by
  cases st <;> cases h <;> exact ⟨rfl, rfl⟩

end Corral.AwaiterStateChecker
