import Corral.Wait.Model
import Corral.Lib.Machine

/-!
# A mux and its children: what the functions do

* `State.move`: what becomes of one child;
* `Invokes`: what `MuxBase::invoke()` does, up to the loop of `internalCancel()`.
-/

namespace Corral.Wait

open ActionMachine AwaiterStateChecker
open Mux (HelperState Cause)

variable {n : ℕ} {V Err : Type*} {m : Kind n} {s t : State n V Err}

/-- The child `j` is in the state `st`, and `l` has happened to it. -/
def State.move (s : State n V Err) (j : Fin n) (st : HelperState) (l : List Event) :
    State n V Err :=
  { s with
    child := Function.update s.child j st
    events := Function.update s.events j l }

@[simp] theorem child_move (j : Fin n) (st : HelperState) (l : List Event) :
    (s.move j st l).child j = st := Function.update_self _ _ _

@[simp] theorem events_move (j : Fin n) (st : HelperState) (l : List Event) :
    (s.move j st l).events j = l := Function.update_self _ _ _

@[simp] theorem setState_move (j : Fin n) (st st' : HelperState) (l : List Event) :
    (s.move j st l).setState j st' = s.move j st' l := by
  simp [State.move, State.setState]

@[simp] theorem record_move (j : Fin n) (st : HelperState) (l : List Event) (e : Event) :
    (s.move j st l).record j e = s.move j st (l ++ [e]) := by
  simp [State.move, State.record]

theorem record_eq (j : Fin n) (e : Event) :
    s.record j e = s.move j (s.child j) (s.events j ++ [e]) := by
  simp [State.move, State.record]

theorem setState_eq (j : Fin n) (st : HelperState) :
    s.setState j st = s.move j st (s.events j) := by
  simp [State.move, State.setState]

theorem move_self (j : Fin n) : s.move j (s.child j) (s.events j) = s := by
  simp [State.move]

/-- `error_` after `invoke(err)`. -/
def State.errorAfter (s : State n V Err) (err : Option Err) : Option Err :=
  if err.isSome && s.error.isNone then err else s.error

/-- What `MuxBase::invoke(err)` does. -/
inductive Invokes (m : Kind n) (s : State n V Err) (err : Option Err) : State n V Err → Prop
  | last : s.count + 1 = n → Invokes m s err
      { s with error := s.errorAfter err, count := s.count + 1 }.resumeParent
  | cancels : s.count + 1 ≠ n → Invokes m s err
      ({ s with error := s.errorAfter err }.enter (.cancelLoop .invoke 0 true))
  | counts : s.count + 1 ≠ n → (err.isSome = true → s.error.isSome = true) →
      s.count + 1 ≠ m.minReady → Invokes m s err
      { s with error := s.errorAfter err, count := s.count + 1 }

theorem invokes_muxInvoke (m : Kind n) (s : State n V Err) (err : Option Err) :
    Invokes m s err (s.muxInvoke m err) := by
  unfold State.muxInvoke
  by_cases hn : s.count + 1 = n
  · have h := @Invokes.last n V Err m s err hn
    simp only [if_pos hn]
    exact h
  · by_cases hc : (err.isSome && s.error.isNone || s.count + 1 == m.minReady) = true
    · have h := @Invokes.cancels n V Err m s err hn
      simp only [if_neg hn, if_pos hc, Nat.add_sub_cancel]
      exact h
    · simp only [if_neg hn, if_neg hc]
      simp only [Bool.or_eq_true, Bool.and_eq_true, beq_iff_eq, not_or, not_and] at hc
      refine Invokes.counts hn (fun h => ?_) hc.2
      have hsome := hc.1 h
      cases he : s.error with
      | none => simp [he] at hsome
      | some e => rfl

end Corral.Wait
