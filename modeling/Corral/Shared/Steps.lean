import Corral.Shared.Completion

/-!
# `Shared`: what a step does

`Change` lists everything that a step can do to the shared operation and to the awaiters, the log
apart; `change_of_step` says that there is nothing else.
-/

namespace Corral.Shared

open ActionMachine Registry AwaiterStateChecker

variable {V Err : Type*} {cas : Bool} {s t : State V Err}

/-- What `invoke()` makes of the result, where `must` is the answer of the wrapped awaiter. -/
def Result.onInvoke (must : Bool) : Result V Err → Result V Err
  | .cancelling => if must then .incomplete else .cancelled
  | r => r

/-- `earlyCancel()` of this awaiter goes to the wrapped one. -/
def State.forwards (s : State V Err) (aw : Awaiter) : Prop :=
  aw.attached = true ∧ s.parents = [] ∧ s.result = .incomplete

/-- What `await_must_resume()` of this awaiter returns. -/
def State.answers (s : State V Err) (aw : Awaiter) (must : Bool) : Bool :=
  aw.attached && (s.askMustResume must).1

/-- Everything that a step can do. -/
inductive Change (s : State V Err) : Action V Err → State V Err → Prop
  | newAwaiter {optional : Bool} : Change s (.newAwaiter optional)
      ({ s with nextId := s.nextId + 1 }.setAwaiter s.nextId ⟨true, optional, .init⟩)
  | asks {p : ℕ} {aw : Awaiter} {c : Checker} {log : List (Call × Wrapped)} :
      s.awaiters.lookup p = some aw →
      aw.checker.readyReturned (!aw.attached || s.ready) = some c →
      Change s (.awaitReady p) ({ s with log := log }.setAwaiter p { aw with checker := c })
  | skips {p : ℕ} {aw : Awaiter} {c : Checker} {done : Bool} :
      s.awaiters.lookup p = some aw → ¬ s.forwards aw →
      aw.checker.earlyCancelReturned true = some c →
      Change s (.awaitEarlyCancel p done)
        (s.setAwaiter p { aw with attached := false, checker := c })
  | cancelledEarly {p : ℕ} {aw : Awaiter} {c : Checker} :
      s.awaiters.lookup p = some aw → s.forwards aw →
      aw.checker.earlyCancelReturned true = some c →
      Change s (.awaitEarlyCancel p true)
        ((s.setResult .cancelled).setAwaiter p { aw with attached := false, checker := c })
  | refusedEarly {p : ℕ} {aw : Awaiter} {c : Checker} :
      s.awaiters.lookup p = some aw → s.forwards aw →
      aw.checker.earlyCancelReturned false = some c →
      Change s (.awaitEarlyCancel p false)
        (((s.setResult .cancelPending).setWrapped { s.wrapped with refused := true }).setAwaiter p
          { aw with checker := c })
  | starts {p : ℕ} {aw : Awaiter} {c : Checker} :
      s.awaiters.lookup p = some aw → aw.attached = true →
      (aw.checker.aboutToSetExecutor).bind Checker.aboutToSuspend = some c → s.parents = [] →
      Change s (.awaitSuspend p) ({ s with
        parents := [p]
        result := s.result.onSuspend
        wrapped := { s.wrapped with started := true, running := true }
        stack := .awaitSuspend :: s.stack }.setAwaiter p { aw with checker := c })
  | joins {p : ℕ} {aw : Awaiter} {c : Checker} :
      s.awaiters.lookup p = some aw → aw.attached = true →
      (aw.checker.aboutToSetExecutor).bind Checker.aboutToSuspend = some c → s.parents ≠ [] →
      Change s (.awaitSuspend p)
        ({ s with parents := s.parents ++ [p] }.setAwaiter p { aw with checker := c })
  | cancelsDetached {p : ℕ} {aw : Awaiter} :
      s.awaiters.lookup p = some aw → aw.attached = false → aw.checker.state = .running →
      Change s (.awaitCancel p) (s.setAwaiter p { aw with checker := aw.checker.set .cancelled })
  | cancelsLast {p : ℕ} {aw : Awaiter} :
      s.awaiters.lookup p = some aw → aw.attached = true → aw.checker.state = .running →
      s.parents = [p] →
      Change s (.awaitCancel p) ({ s with
        result := .cancelling
        stack := .awaitCancel p :: s.stack }.setAwaiter p
          { aw with checker := aw.checker.set .cancelling })
  | cancelsOther {p : ℕ} {aw : Awaiter} :
      s.awaiters.lookup p = some aw → aw.attached = true → aw.checker.state = .running →
      s.parents.length ≠ 1 →
      Change s (.awaitCancel p) ((s.unlink p).setAwaiter p
        { aw with attached := false, checker := aw.checker.set .cancelled })
  | mustResume {p : ℕ} {aw : Awaiter} {must : Bool} {log : List (Call × Wrapped)} :
      s.awaiters.lookup p = some aw → aw.checker.state = .readyAfterCancel →
      Change s (.awaitMustResume p must) ({ s with log := log }.setAwaiter p { aw with
        checker := aw.checker.set (if s.answers aw must then .ready else .cancelled) })
  | resumes {p : ℕ} {aw : Awaiter} {c : Checker} {res : Except Err V}
      {log : List (Call × Wrapped)} :
      s.awaiters.lookup p = some aw → aw.attached = true → aw.checker.aboutToResume = some c →
      Change s (.awaitResume p res) ({ s with
        result := (s.fetch res).result
        log := log }.setAwaiter p { aw with checker := c })
  | drop {p : ℕ} {aw : Awaiter} : s.awaiters.lookup p = some aw → aw.checker.mayReset = true →
      Change s (.drop p) { s with awaiters := s.awaiters.erase p }
  | becomesReady : Change s .becomesReady (s.setWrapped { s.wrapped with ready := true })
  | completes {must : Bool} {log : List (Call × Wrapped)} : s.wrapped.running = true →
      Change s (.resumes must) { s with
        result := s.result.onInvoke must
        parents := []
        wrapped := { s.wrapped with running := false, completed := true }
        stack := .invoke s.parents :: s.stack
        log := log }
  | suspendReturns {below : List Frame} : s.stack = .awaitSuspend :: below →
      Change s .suspendReturns { s with stack := below }
  | throws {below : List Frame} {err : Err} : s.stack = .awaitSuspend :: below →
      s.wrapped.running = true → Change s (.suspendThrows err) { s with
        result := .exception err
        parents := []
        wrapped := { s.wrapped with running := false }
        stack := .invoke s.parents :: below }
  | confirms {p : ℕ} {aw : Awaiter} {below : List Frame} : s.stack = .awaitCancel p :: below →
      s.awaiters.lookup p = some aw → s.wrapped.running = true → aw.checker.state = .cancelling →
      Change s (.cancelReturns true) (({ s with
        result := .cancelled
        wrapped := { s.wrapped with running := false }
        stack := below }.unlink p).setAwaiter p
          { aw with attached := false, checker := aw.checker.set .cancelled })
  | refuses {p : ℕ} {aw : Awaiter} {below : List Frame} : s.stack = .awaitCancel p :: below →
      s.awaiters.lookup p = some aw →
      Change s (.cancelReturns false) ({ s with stack := below }.setAwaiter p aw)
  | invoked {below : List Frame} : s.stack = .invoke [] :: below →
      Change s .next { s with stack := below }
  | wakesUp {p : ℕ} {ps : List ℕ} {below : List Frame} {aw : Awaiter} {c : Checker}
      {log : List (Call × Wrapped)} : s.stack = .invoke (p :: ps) :: below →
      s.awaiters.lookup p = some aw → aw.checker.resumed = some c →
      Change s .next ({ s with stack := .invoke ps :: below, log := log }.setAwaiter p
        { aw with checker := c })

variable {p : ℕ} {aw : Awaiter}

theorem change_of_ready (hp : s.awaiters.lookup p = some aw)
    (h : s.perform cas p aw (.awaitReady p) = .ok t) : Change s (.awaitReady p) t := by
  simp only [State.perform] at h
  obtain ⟨c, hc, rfl⟩ := check_eq_ok h
  split_ifs
  · exact .asks hp hc
  · exact .asks hp hc

theorem change_of_earlyCancel {done : Bool} (hp : s.awaiters.lookup p = some aw)
    (h : s.earlyCancel p aw done = .ok t) : Change s (.awaitEarlyCancel p done) t := by
  unfold State.earlyCancel at h
  simp only at h
  split at h
  · rename_i hat hnil hr
    cases done with
    | true =>
      obtain ⟨c, hc, rfl⟩ := check_eq_ok h
      have hch := Change.cancelledEarly hp ⟨hat, hnil, hr⟩ hc
      exact hch
    | false =>
      obtain ⟨c, hc, rfl⟩ := check_eq_ok h
      exact .refusedEarly hp ⟨hat, hnil, hr⟩ hc
  · rename_i hnot
    obtain ⟨c, hc, rfl⟩ := check_eq_ok h
    have hf : ¬ s.forwards aw := fun hf => hnot hf.1 hf.2.1 hf.2.2
    have hch : Change s (.awaitEarlyCancel p done) _ := .skips hp hf hc
    exact hch

theorem change_of_suspend (hp : s.awaiters.lookup p = some aw) (h : s.suspend p aw = .ok t) :
    Change s (.awaitSuspend p) t := by
  unfold State.suspend at h
  split at h
  · rename_i c hat hc
    simp only at h
    split_ifs at h with hnil
    · cases h
      have hstart := Change.starts hp hat hc hnil
      simpa [State.setAwaiter, State.setResult, State.setWrapped, State.enter, hnil] using hstart
    · cases h
      exact .joins hp hat hc hnil
  · cases h
  · cases h

theorem aboutToCancel_eq_some {c c' : Checker} (h : c.aboutToCancel = some c') :
    c.state = .running ∧ c' = c.set .cancelling := by
  unfold Checker.aboutToCancel at h
  split_ifs at h with hc
  cases h
  exact ⟨hc, rfl⟩

theorem change_of_cancel (hp : s.awaiters.lookup p = some aw) (h : s.cancel p aw = .ok t) :
    Change s (.awaitCancel p) t := by
  unfold State.cancel at h
  split at h
  · cases h
  · rename_i c hc
    obtain ⟨hrun, rfl⟩ := aboutToCancel_eq_some hc
    have hret : (aw.checker.set .cancelling).cancelReturned true =
        some (aw.checker.set .cancelled) := rfl
    split_ifs at h with hat hlen hone
    · obtain ⟨c', hc', rfl⟩ := check_eq_ok h
      cases hret.symm.trans hc'
      have hch := Change.cancelsDetached hp hat hrun
      exact hch
    · cases h
      exact .cancelsLast hp (by simpa using hat) hrun hone
    · obtain ⟨c', hc', rfl⟩ := check_eq_ok h
      cases hret.symm.trans hc'
      have hch := Change.cancelsOther hp (by simpa using hat) hrun hlen
      exact hch

theorem mustResumeReturned_eq_some {c c' : Checker} {val : Bool}
    (h : c.mustResumeReturned val = some c') :
    c.state = .readyAfterCancel ∧ c' = c.set (if val then .ready else .cancelled) := by
  unfold Checker.mustResumeReturned at h
  split at h
  · cases h
    exact ⟨‹_›, rfl⟩
  · cases h

/-- Asking changes the log at most. -/
theorem askMustResume_snd (s : State V Err) (must : Bool) :
    ∃ log, (s.askMustResume must).2 = { s with log := log } := by
  unfold State.askMustResume
  split
  · exact ⟨_, rfl⟩
  · exact ⟨_, rfl⟩
  · exact ⟨_, rfl⟩

theorem change_of_mustResume {must : Bool} (hp : s.awaiters.lookup p = some aw)
    (h : s.mustResume cas p aw must = .ok t) : Change s (.awaitMustResume p must) t := by
  unfold State.mustResume at h
  split_ifs at h with hat
  · obtain ⟨c, hc, rfl⟩ := check_eq_ok h
    obtain ⟨hst, rfl⟩ := mustResumeReturned_eq_some hc
    have hask : s.answers aw must = false := by simp [State.answers, hat]
    have hch : Change s (.awaitMustResume p must) (s.setAwaiter p { aw with
        checker := aw.checker.set (if s.answers aw must then .ready else .cancelled) }) :=
      .mustResume hp hst
    rw [hask] at hch
    exact hch
  · simp only at h
    have hat' : aw.attached = true := by simpa using hat
    have hask : (s.askMustResume must).1 = s.answers aw must := by simp [State.answers, hat']
    obtain ⟨log, hlog⟩ := askMustResume_snd s must
    split_ifs at h with hcas hret
    · obtain ⟨c, hc, rfl⟩ := check_eq_ok h
      obtain ⟨hst, rfl⟩ := mustResumeReturned_eq_some hc
      rw [hask, hlog]
      exact .mustResume hp hst
    · obtain ⟨c, hc, rfl⟩ := check_eq_ok h
      obtain ⟨hst, rfl⟩ := mustResumeReturned_eq_some hc
      rw [hask, hlog]
      exact .mustResume hp hst

/-- Fetching changes the log and the result at most. -/
theorem fetch_eq (s : State V Err) (res : Except Err V) :
    ∃ log, s.fetch res = { s with result := (s.fetch res).result, log := log } := by
  unfold State.fetch
  simp only
  split
  · exact ⟨_, rfl⟩
  · exact ⟨_, rfl⟩
  · exact ⟨_, rfl⟩

theorem change_of_awaitResume {res : Except Err V} (hp : s.awaiters.lookup p = some aw)
    (h : s.awaitResume p aw res = .ok t) : Change s (.awaitResume p res) t := by
  unfold State.awaitResume at h
  by_cases hat : aw.attached = false
  · rw [if_pos hat] at h
    cases h
  rw [if_neg hat] at h
  simp only at h
  have hat' : aw.attached = true := by simpa using hat
  obtain ⟨log, hlog⟩ := fetch_eq s res
  have hdone : ∀ log' c, aw.checker.aboutToResume = some c →
      Change s (.awaitResume p res)
        ({ s.fetch res with log := log' }.setAwaiter p { aw with checker := c }) := by
    intro log' c hc
    rw [hlog]
    exact .resumes hp hat' hc
  split at h
  · obtain ⟨c, hc, rfl⟩ := check_eq_ok h
    exact hdone _ c hc
  · obtain ⟨c, hc, rfl⟩ := check_eq_ok h
    exact hdone _ c hc
  · split_ifs at h
    obtain ⟨c, hc, rfl⟩ := check_eq_ok h
    exact hdone _ c hc

theorem change_of_perform {a : Action V Err} (hp : s.awaiters.lookup p = some aw)
    (ha : a.caller = some p) (h : s.perform cas p aw a = .ok t) : Change s a t := by
  cases a with
  | awaitReady q => cases ha; exact change_of_ready hp h
  | awaitEarlyCancel q done => cases ha; exact change_of_earlyCancel hp h
  | awaitSuspend q => cases ha; exact change_of_suspend hp h
  | awaitCancel q => cases ha; exact change_of_cancel hp h
  | awaitMustResume q must => cases ha; exact change_of_mustResume hp h
  | awaitResume q res => cases ha; exact change_of_awaitResume hp h
  | drop q =>
    cases ha
    simp only [State.perform] at h
    split_ifs at h with hreset
    cases h
    exact .drop hp hreset
  | newAwaiter | becomesReady | resumes | suspendReturns | suspendThrows | cancelReturns | next =>
    cases ha

theorem change_of_cancelReturns {done : Bool} {below : List Frame}
    (hst : s.stack = .awaitCancel p :: below) (hp : s.awaiters.lookup p = some aw)
    (h : { s with stack := below }.cancelReturns p aw done = .ok t) :
    Change s (.cancelReturns done) t := by
  unfold State.cancelReturns at h
  cases done with
  | true =>
    simp only [if_true] at h
    split_ifs at h with hrun
    obtain ⟨c, hc, rfl⟩ := check_eq_ok h
    simp only [Checker.cancelReturned, if_true] at hc
    split_ifs at hc with hcan
    cases hc
    have hch := Change.confirms hst hp hrun hcan
    exact hch
  | false =>
    rw [if_neg (by simp)] at h
    obtain ⟨c, hc, rfl⟩ := check_eq_ok h
    cases hc
    exact .refuses hst hp

/-- What `invoke()` does before its loop. -/
theorem invoke_eq (s : State V Err) (must : Bool) :
    ∃ log, s.invoke must = { s with
      result := s.result.onInvoke must
      parents := []
      stack := .invoke s.parents :: s.stack
      log := log } := by
  obtain ⟨result, parents, awaiters, wrapped, stack, nextId, log⟩ := s
  cases result <;> exact ⟨_, rfl⟩

theorem change_of_internal {a : Action V Err} (h : s.internal a = .ok t) : Change s a t := by
  cases a with
  | newAwaiter optional =>
    cases h
    exact .newAwaiter
  | becomesReady =>
    cases h
    exact .becomesReady
  | resumes must =>
    simp only [State.internal] at h
    split_ifs at h with hrun
    cases h
    obtain ⟨log, hlog⟩ :=
      invoke_eq (s.setWrapped { s.wrapped with running := false, completed := true }) must
    rw [hlog]
    exact .completes hrun
  | suspendReturns =>
    simp only [State.internal] at h
    split at h
    · cases h
      exact .suspendReturns ‹_›
    · cases h
  | suspendThrows err =>
    simp only [State.internal] at h
    split at h
    · split_ifs at h with hrun
      cases h
      exact .throws ‹_› hrun
    · cases h
  | cancelReturns done =>
    simp only [State.internal] at h
    split at h
    · rename_i hst
      split at h
      · exact change_of_cancelReturns hst ‹_› h
      · cases h
    · cases h
  | next =>
    simp only [State.internal] at h
    split at h
    · cases h
      exact .invoked ‹_›
    · rename_i hst
      split at h
      · obtain ⟨c, hc, rfl⟩ := check_eq_ok h
        exact .wakesUp hst ‹_› hc
      · cases h
    · cases h
  | awaitReady | awaitEarlyCancel | awaitSuspend | awaitCancel | awaitMustResume | awaitResume
    | drop => cases h

/-- Nothing else happens. -/
theorem change_of_step {a : Action V Err} (h : step cas s a = .ok t) : Change s a t := by
  unfold Shared.step at h
  split at h
  · rename_i ha
    split at h
    · exact change_of_perform ‹_› ha h
    · cases h
  · exact change_of_internal h

/-! ### What a step does to one awaiter -/

/-- The awaiters after one of them has been set. -/
theorem lookup_setAwaiter {p q : ℕ} {aw aw' : Awaiter} {u : State V Err}
    (hu : u.awaiters = s.awaiters) (h : (u.setAwaiter q aw).awaiters.lookup p = some aw') :
    p = q ∧ aw' = aw ∨ p ≠ q ∧ s.awaiters.lookup p = some aw' := by
  simp only [State.setAwaiter, lookup_insert_eq, hu] at h
  split_ifs at h with hpq
  · exact .inl ⟨hpq, (Option.some.inj h).symm⟩
  · exact .inr ⟨hpq, h⟩

/-- How the checker of the parent `p` changes in a step by the action `a` from `s` to `t`. -/
inductive Moved (s t : State V Err) (p : ℕ) : Action V Err → Checker → Checker → Prop
  | stays {a : Action V Err} {c : Checker} : a.caller ≠ some p → Moved s t p a c c
  | asks {c c' : Checker} {val : Bool} : (val = false → s.ready = false) →
      c.readyReturned val = some c' → Moved s t p (.awaitReady p) c c'
  | cancelsEarly {c c' : Checker} {done val : Bool} : c.earlyCancelReturned val = some c' →
      Moved s t p (.awaitEarlyCancel p done) c c'
  | suspends {c c' : Checker} : (c.aboutToSetExecutor).bind Checker.aboutToSuspend = some c' →
      Moved s t p (.awaitSuspend p) c c'
  | cancels {c : Checker} {st : AwaiterStateChecker.State} : c.state = .running →
      st = .cancelling ∨ st = .cancelled → Moved s t p (.awaitCancel p) c (c.set st)
  | mustResume {c : Checker} {must val : Bool} : c.state = .readyAfterCancel →
      (val = true → s.result ≠ .cancelled) → t.result = s.result →
      Moved s t p (.awaitMustResume p must) c (c.set (if val then .ready else .cancelled))
  | resumes {c c' : Checker} {res : Except Err V} : c.aboutToResume = some c' →
      Moved s t p (.awaitResume p res) c c'
  | confirms {c : Checker} : c.state = .cancelling →
      Moved s t p (.cancelReturns true) c (c.set .cancelled)
  | wakesUp {c c' : Checker} : c.resumed = some c' → Moved s t p .next c c'

theorem ne_cancelled_of_answers {aw : Awaiter} {must : Bool} (h : s.answers aw must = true) :
    s.result ≠ .cancelled := by
  intro hr
  simp [State.answers, State.askMustResume, hr] at h

/-- An awaiter is new, or its checker has moved. -/
theorem moved_of_change {a : Action V Err} {aw' : Awaiter} (h : Change s a t)
    (hp : t.awaiters.lookup p = some aw') :
    p = s.nextId ∧ aw'.checker = .init ∧ a.caller = none ∧ t.result = s.result ∨
      ∃ aw, s.awaiters.lookup p = some aw ∧ Moved s t p a aw.checker aw'.checker := by
  cases h with
  | newAwaiter =>
    rcases lookup_setAwaiter rfl hp with ⟨hpq, rfl⟩ | ⟨-, hp⟩
    · exact .inl ⟨hpq, rfl, rfl, rfl⟩
    · exact .inr ⟨aw', hp, .stays (by simp [Action.caller])⟩
  | asks hq hc =>
    rcases lookup_setAwaiter rfl hp with ⟨rfl, rfl⟩ | ⟨hne, hp⟩
    · exact .inr ⟨_, hq, .asks (fun h => (Bool.or_eq_false_iff.1 h).2) hc⟩
    · exact .inr ⟨aw', hp, .stays (by simp [Action.caller, hne.symm])⟩
  | skips hq _ hc | cancelledEarly hq _ hc | refusedEarly hq _ hc =>
    rcases lookup_setAwaiter rfl hp with ⟨rfl, rfl⟩ | ⟨hne, hp⟩
    · exact .inr ⟨_, hq, .cancelsEarly hc⟩
    · exact .inr ⟨aw', hp, .stays (by simp [Action.caller, hne.symm])⟩
  | starts hq _ hc | joins hq _ hc =>
    rcases lookup_setAwaiter rfl hp with ⟨rfl, rfl⟩ | ⟨hne, hp⟩
    · exact .inr ⟨_, hq, .suspends hc⟩
    · exact .inr ⟨aw', hp, .stays (by simp [Action.caller, hne.symm])⟩
  | cancelsDetached hq _ hrun | cancelsOther hq _ hrun =>
    rcases lookup_setAwaiter rfl hp with ⟨rfl, rfl⟩ | ⟨hne, hp⟩
    · exact .inr ⟨_, hq, .cancels hrun (.inr rfl)⟩
    · exact .inr ⟨aw', hp, .stays (by simp [Action.caller, hne.symm])⟩
  | cancelsLast hq _ hrun =>
    rcases lookup_setAwaiter rfl hp with ⟨rfl, rfl⟩ | ⟨hne, hp⟩
    · exact .inr ⟨_, hq, .cancels hrun (.inl rfl)⟩
    · exact .inr ⟨aw', hp, .stays (by simp [Action.caller, hne.symm])⟩
  | mustResume hq hst =>
    rcases lookup_setAwaiter rfl hp with ⟨rfl, rfl⟩ | ⟨hne, hp⟩
    · exact .inr ⟨_, hq, .mustResume hst ne_cancelled_of_answers rfl⟩
    · exact .inr ⟨aw', hp, .stays (by simp [Action.caller, hne.symm])⟩
  | resumes hq _ hc =>
    rcases lookup_setAwaiter rfl hp with ⟨rfl, rfl⟩ | ⟨hne, hp⟩
    · exact .inr ⟨_, hq, .resumes hc⟩
    · exact .inr ⟨aw', hp, .stays (by simp [Action.caller, hne.symm])⟩
  | @drop q _ hq =>
    have hne : p ≠ q := by
      rintro rfl
      simp [AList.lookup_erase] at hp
    exact .inr ⟨aw', lookup_of_lookup_erase hp, .stays (by simp [Action.caller, hne.symm])⟩
  | confirms _ hq _ hcan =>
    rcases lookup_setAwaiter rfl hp with ⟨rfl, rfl⟩ | ⟨-, hp⟩
    · exact .inr ⟨_, hq, .confirms hcan⟩
    · exact .inr ⟨aw', hp, .stays (by simp [Action.caller])⟩
  | refuses _ hq =>
    rcases lookup_setAwaiter rfl hp with ⟨rfl, rfl⟩ | ⟨-, hp⟩
    · exact .inr ⟨_, hq, .stays (by simp [Action.caller])⟩
    · exact .inr ⟨aw', hp, .stays (by simp [Action.caller])⟩
  | wakesUp _ hq hc =>
    rcases lookup_setAwaiter rfl hp with ⟨rfl, rfl⟩ | ⟨-, hp⟩
    · exact .inr ⟨_, hq, .wakesUp hc⟩
    · exact .inr ⟨aw', hp, .stays (by simp [Action.caller])⟩
  | _ => exact .inr ⟨aw', hp, .stays (by simp [Action.caller])⟩

theorem nextId_of_change {a : Action V Err} (h : Change s a t) : s.nextId ≤ t.nextId := by
  cases h with
  | newAwaiter => exact Nat.le_succ _
  | _ => exact le_rfl

end Corral.Shared
