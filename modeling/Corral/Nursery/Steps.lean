import Corral.Nursery.Model

/-!
# Nurseries: what an action comes to

* `Performed s a t`: in the state `s` the action `a` is possible and leads to `t`, one constructor for each
  way in which an action goes;
* `performed_of_perform`: whatever `State.perform` does is one of these.
-/

namespace Corral.Nursery

open Registry

variable {Err : Type*}

/-- What the callers, the tasks, the awaiters and the executors do. -/
inductive Performed (s : State Err) : Action Err → State Err → Prop
  | openScope : s.kind = .scope → s.joined = false →
      Performed s .openScope ({ s with executor := true, parent := true, joined := true }.enter .body)
  | bodyPromise {below : List Frame} {t : State Err} : s.stack = .body :: below →
      { s with stack := below }.addPromise .scope = .ok t → Performed s (.bodyReturns .promise) t
  | bodyDone {below : List Frame} {out : Outcome Err} {t : State Err} : s.stack = .body :: below →
      { s with stack := .continuation .scope none :: below }.storeInScope out = .ok t →
      Performed s (.bodyReturns (.done out)) t
  | joinClosed : s.kind ≠ .scope → s.executor = false → Performed s .join s
  | joinEmpty : s.kind ≠ .scope → s.executor = true → s.parent = false → s.tasks = [] →
      Performed s .join { s with executor := false }
  | join : s.kind ≠ .scope → s.executor = true → s.parent = false → s.tasks ≠ [] →
      Performed s .join { s with parent := true, joined := true }
  | asyncCloseEmpty : s.kind = .unsafeNursery → s.parent = false → s.tasks = [] →
      Performed s .asyncClose { s with executor := false }
  | asyncClose : s.kind = .unsafeNursery → s.parent = false → s.tasks ≠ [] →
      Performed s .asyncClose { s with parent := true, joined := true }.cancel
  | closeEmpty : s.kind = .unsafeNursery → s.tasks = [] → Performed s .close (s.enter .closing)
  | close : s.kind = .unsafeNursery → s.tasks ≠ [] →
      Performed s .close ((s.submit .cancelNursery).enter .closing)
  | cancel : Performed s .cancel s.cancel
  | startPromise {t : State Err} : s.addPromise .nursery = .ok t → Performed s (.start .promise) t
  | startDone {out : Outcome Err} {t : State Err} : s.storeInNursery out = .ok t →
      Performed s (.start (.done out)) t
  | newStart : Performed s .newStart
      ({ s with nextId := s.nextId + 1 }.setStarter s.nextId
        ⟨true, none, false, false, .incomplete, true⟩)
  | startEarlyCancel {a : ℕ} {st : Starter Err} : s.starters.lookup a = some st →
      st.promise = none → st.nursery = true →
      Performed s (.startEarlyCancel a) (s.setStarter a { st with cancelling := true })
  | startSuspend {a : ℕ} {st : Starter Err} {failure : Option Err} {t : State Err} :
      s.starters.lookup a = some st → st.promise = none → st.nursery = true →
      s.startSuspend a st failure = .ok t → Performed s (.startSuspend a failure) t
  | startCancel {a p : ℕ} {st : Starter Err} {t : State Err} : s.starters.lookup a = some st →
      st.handle = true → st.cancelling = false → st.promise = some p →
      (s.setStarter a { st with cancelling := true }).cancelPromise p = .ok t →
      Performed s (.startCancel a) t
  | startCancelHanded {a : ℕ} {st : Starter Err} : s.starters.lookup a = some st →
      st.handle = true → st.cancelling = false → st.promise = none → Performed s (.startCancel a) s
  | started {a p : ℕ} {st : Starter Err} {t : State Err} : s.starters.lookup a = some st →
      st.sink = true → st.promise = some p → s.markStarted a st p = .ok t → Performed s (.started a) t
  | dropStart {a p : ℕ} {st : Starter Err} : s.starters.lookup a = some st → st.handle = false →
      st.nursery = false → st.promise = some p →
      Performed s (.dropStart a) ({ s with starters := s.starters.erase a }.destroy p)
  | dropStartHanded {a : ℕ} {st : Starter Err} : s.starters.lookup a = some st → st.handle = false →
      st.nursery = false → st.promise = none →
      Performed s (.dropStart a) { s with starters := s.starters.erase a }
  | await {p : ℕ} {pr : Promise} {ans : Answers} {t : State Err} : s.promises.lookup p = some pr →
      pr.status = .running → s.hookAwaitSuspend p pr ans = .ok t → Performed s (.await p ans) t
  | resumeNothing {p : ℕ} {pr : Promise} {mustResume : Bool} : s.promises.lookup p = some pr →
      pr.status = .suspended ∧ pr.parent.isSome → pr.onResume = .doNothing →
      Performed s (.resume p mustResume) s
  | resume {p : ℕ} {pr : Promise} {mustResume : Bool} : s.promises.lookup p = some pr →
      pr.status = .suspended ∧ pr.parent.isSome → pr.onResume = .doResume →
      Performed s (.resume p mustResume) (s.doResume p pr)
  | resumeAfterCancel {p : ℕ} {pr : Promise} {mustResume : Bool} {t : State Err} :
      s.promises.lookup p = some pr → pr.status = .suspended ∧ pr.parent.isSome →
      pr.onResume = .doResumeAfterCancel → s.doResumeAfterCancel p pr mustResume = .ok t →
      Performed s (.resume p mustResume) t
  | cancelConfirmed {p : ℕ} {pr : Promise} {below : List Frame} {t : State Err} :
      s.stack = .awaitCancel p :: below → s.promises.lookup p = some pr → pr.status = .suspended →
      { s with stack := below }.propagateCancel p pr = .ok t → Performed s (.cancelReturns true) t
  | cancelRefused {p : ℕ} {below : List Frame} : s.stack = .awaitCancel p :: below →
      Performed s (.cancelReturns false) { s with stack := below }
  | storeResult {p : ℕ} {pr : Promise} {par : Parent} {out : Outcome Err} {t : State Err} :
      s.promises.lookup p = some pr → pr.status = .running → pr.parent = some par →
      (s.setPromise p { pr with status := .returned }).store par out = .ok t →
      Performed s (.storeResult p out) t
  | finalSuspend {p : ℕ} {pr : Promise} {par : Parent} : s.promises.lookup p = some pr →
      pr.status = .returned → pr.parent = some par → Performed s (.finalSuspend p)
        ((s.setPromise p { pr with parent := none }).enter (.continuation par (some p)))
  | callback {cb : Callback} {t : State Err} : cb ∈ s.queue →
      { s with queue := s.queue.erase cb }.execute cb = .ok t → Performed s (.callback cb) t

variable {s t : State Err}

theorem performed_of_startCancel {a : ℕ} (h : s.perform (.startCancel a) = .ok t) :
    Performed s (.startCancel a) t := by
  simp only [State.perform] at h
  split at h
  · rename_i st ha
    split_ifs at h with hst
    rw [not_or] at hst
    have hh : st.handle = true := by simpa using hst.1
    have hc : st.cancelling = false := by simpa using hst.2
    split at h
    · rename_i p hp
      exact .startCancel ha hh hc hp h
    · rename_i hp
      cases h
      exact .startCancelHanded ha hh hc hp
  · cases h

theorem performed_of_dropStart {a : ℕ} (h : s.perform (.dropStart a) = .ok t) :
    Performed s (.dropStart a) t := by
  simp only [State.perform] at h
  split at h
  · rename_i st ha
    split_ifs at h with hh hn
    have hh' : st.handle = false := by simpa using hh
    have hn' : st.nursery = false := by simpa using hn
    split at h
    · rename_i p hp
      cases h
      exact .dropStart ha hh' hn' hp
    · rename_i hp
      cases h
      exact .dropStartHanded ha hh' hn' hp
  · cases h

theorem performed_of_cancelReturns {done : Bool} (h : s.perform (.cancelReturns done) = .ok t) :
    Performed s (.cancelReturns done) t := by
  simp only [State.perform] at h
  split at h
  · rename_i p below hst
    cases done with
    | true =>
      rw [if_pos rfl] at h
      split at h
      · rename_i pr hp
        split_ifs at h with hs
        exact .cancelConfirmed hst hp hs h
      · cases h
    | false =>
      cases h
      exact .cancelRefused hst
  · cases h

/-- Whatever an action does. -/
theorem performed_of_perform {a : Action Err} (h : s.perform a = .ok t) : Performed s a t := by
  cases a with
  | openScope =>
    simp only [State.perform] at h
    split_ifs at h with hk
    cases h
    exact .openScope hk.1 hk.2
  | bodyReturns m =>
    simp only [State.perform] at h
    split at h
    · rename_i below hst
      cases m with
      | promise => exact .bodyPromise hst h
      | done out => exact .bodyDone hst h
    · cases h
  | join =>
    simp only [State.perform] at h
    split_ifs at h with hk he hp hnil <;> cases h
    · exact .joinClosed hk he
    · exact .joinEmpty hk (by simpa using he) (by simpa using hp) hnil
    · exact .join hk (by simpa using he) (by simpa using hp) hnil
  | asyncClose =>
    simp only [State.perform] at h
    split_ifs at h with hk hp hnil <;> cases h
    · exact .asyncCloseEmpty (by simpa using hk) (by simpa using hp) hnil
    · exact .asyncClose (by simpa using hk) (by simpa using hp) hnil
  | close =>
    simp only [State.perform] at h
    split_ifs at h with hk hnil <;> cases h
    · exact .closeEmpty (by simpa using hk) hnil
    · exact .close (by simpa using hk) hnil
  | cancel =>
    cases h
    exact .cancel
  | start m =>
    cases m with
    | promise => exact .startPromise h
    | done out => exact .startDone h
  | newStart =>
    cases h
    exact .newStart
  | startEarlyCancel a =>
    simp only [State.perform] at h
    split at h
    · rename_i ha
      split_ifs at h with hst
      cases h
      exact .startEarlyCancel ha hst.1 hst.2
    · cases h
  | startSuspend a failure =>
    simp only [State.perform] at h
    split at h
    · rename_i ha
      split_ifs at h with hst
      exact .startSuspend ha hst.1 hst.2 h
    · cases h
  | startCancel a => exact performed_of_startCancel h
  | started a =>
    simp only [State.perform] at h
    split at h
    · rename_i ha
      split at h
      · rename_i hsink hp
        exact .started ha hsink hp h
      · cases h
    · cases h
  | dropStart a => exact performed_of_dropStart h
  | await p ans =>
    simp only [State.perform] at h
    split at h
    · rename_i hp
      split_ifs at h with hs
      exact .await hp hs h
    · cases h
  | resume p mustResume =>
    simp only [State.perform] at h
    split at h
    · rename_i hp
      split_ifs at h with hs
      split at h
      · rename_i hon
        cases h
        exact .resumeNothing hp hs hon
      · rename_i hon
        cases h
        exact .resume hp hs hon
      · rename_i hon
        exact .resumeAfterCancel hp hs hon h
    · cases h
  | cancelReturns done => exact performed_of_cancelReturns h
  | storeResult p out =>
    simp only [State.perform] at h
    split at h
    · rename_i hp
      split at h
      · rename_i hs hpar
        exact .storeResult hp hs hpar h
      · cases h
    · cases h
  | finalSuspend p =>
    simp only [State.perform] at h
    split at h
    · rename_i hp
      split at h
      · rename_i hs hpar
        cases h
        exact .finalSuspend hp hs hpar
      · cases h
    · cases h
  | callback cb =>
    simp only [State.perform] at h
    split_ifs at h with hcb
    exact .callback hcb h
  | next => cases h

end Corral.Nursery
