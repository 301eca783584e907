import Corral.Mux.Model

/-!
# Muxes: what an action comes to

* `Stepped m minReady s a t`: in the state `s` the action `a` is possible and leads to `t`;
* `stepped_of_step`: whatever `step` does is one of these;
* `afterCancel_of_cancelled`: how an `internalCancel()` ends.
-/

namespace Corral.Mux

variable {n : ℕ} {V Err : Type*}

/-- The action leads from one state to another. -/
inductive Stepped (m : Kind n) (minReady : ℕ) (s : State n V Err) : Action n V Err → State n V Err → Prop
  | earlyCancel : s.bound = false → s.stack = [] →
      Stepped m minReady s .earlyCancel (s.enter (.cancelLoop .earlyCancel 0 true))
  | awaitSuspend : s.bound = false → s.stack = [] →
      Stepped m minReady s .awaitSuspend ({ s with bound := true }.enter (.suspendLoop 0))
  | awaitCancel : s.bound = true → s.muted = false → othersInControl s.stack = true →
      Stepped m minReady s .awaitCancel ({ s with muted := true }.enter (.cancelLoop .awaitCancel 0 true))
  | next {ans : Answers V Err} {t : State n V Err} : s.next m minReady ans = .ok t →
      Stepped m minReady s (.next ans) t
  | resume {j : Fin n} {ans : Answers V Err} {t : State n V Err} : othersInControl s.stack = true →
      s.child j = .running ∨ s.child j = .cancelling → s.helperInvoke minReady j ans = .ok t →
      Stepped m minReady s (.resume j ans) t
  | suspendReturns {j : ℕ} {below : List Frame} : s.stack = .awaitSuspend j :: below →
      Stepped m minReady s .suspendReturns { s with stack := below }
  | suspendThrows {j : Fin n} {below : List Frame} {err : Err} : s.stack = .awaitSuspend j :: below →
      s.child j = .running ∨ s.child j = .cancelling →
      Stepped m minReady s (.suspendThrows err)
        (({ s with stack := below }.setState j .failed).muxInvoke minReady j (some err))
  | cancelConfirmed {j : Fin n} {cause : Cause} {k : ℕ} {all : Bool} {below : List Frame} :
      s.stack = .awaitCancel j :: .cancelLoop cause k all :: below → s.child j = .cancelling →
      Stepped m minReady s (.cancelReturns true)
        (({ s with stack := .cancelLoop cause k all :: below }.setState j .cancelled).muxInvoke
          minReady j none)
  | cancelRefused {j : Fin n} {cause : Cause} {k : ℕ} {all : Bool} {below : List Frame} :
      s.stack = .awaitCancel j :: .cancelLoop cause k all :: below →
      Stepped m minReady s (.cancelReturns false)
        { s with stack := .cancelLoop cause k (all && decide (s.child j = .cancelled)) :: below }

variable {m : Kind n} {minReady : ℕ} {s t : State n V Err}

/-- `internalCancel()` returns to its caller, which finds what it relies on. -/
theorem afterCancel_of_cancelled {cause : Cause} {all : Bool} (h : s.cancelled m cause all = .ok t) :
    t = s.afterCancel cause all ∧ (m.relies cause = true → all = true) := by
  unfold State.cancelled at h
  split_ifs at h with hc
  cases h
  refine ⟨rfl, fun hr => ?_⟩
  rw [hr] at hc
  simpa using hc

theorem stepped_of_suspendThrows {err : Err} (h : s.suspendThrows minReady err = .ok t) :
    Stepped m minReady s (.suspendThrows err) t := by
  unfold State.suspendThrows at h
  split at h
  · rename_i j below hst
    split_ifs at h with hj hc
    cases h
    exact .suspendThrows (j := ⟨j, hj⟩) hst hc
  · cases h

theorem stepped_of_cancelReturns {done : Bool} (h : s.cancelReturns minReady done = .ok t) :
    Stepped m minReady s (.cancelReturns done) t := by
  unfold State.cancelReturns at h
  split at h
  · rename_i j cause k all below hst
    split_ifs at h with hj hd hc
    · subst hd
      cases h
      exact .cancelConfirmed (j := ⟨j, hj⟩) hst hc
    · have hd' : done = false := by simpa using hd
      subst hd'
      cases h
      exact .cancelRefused (j := ⟨j, hj⟩) hst
  · cases h

/-- Whatever an action does. -/
theorem stepped_of_step {a : Action n V Err} (h : step m minReady s a = .ok t) :
    Stepped m minReady s a t := by
  cases a with
  | earlyCancel =>
    simp only [step] at h
    split_ifs at h with hb
    cases h
    exact .earlyCancel hb.1 hb.2
  | awaitSuspend =>
    simp only [step] at h
    split_ifs at h with hb
    cases h
    exact .awaitSuspend hb.1 hb.2
  | awaitCancel =>
    simp only [step] at h
    split_ifs at h with hb
    cases h
    exact .awaitCancel hb.1 hb.2.1 hb.2.2
  | next ans => exact .next h
  | resume j ans =>
    simp only [step] at h
    split_ifs at h with hj
    exact .resume hj.1 hj.2 h
  | suspendReturns =>
    simp only [step] at h
    split at h
    · rename_i hst
      cases h
      exact .suspendReturns hst
    · cases h
  | suspendThrows err => exact stepped_of_suspendThrows h
  | cancelReturns done => exact stepped_of_cancelReturns h

end Corral.Mux
