import Corral.Shared.Cancellation

/-!
# The outcome of a shared operation

`result_` is `Incomplete` until one of the parents fetches the result, and it goes through
`CancelPending` and `Cancelling` when the operation is to be cancelled.  A parent that has been told
that the operation is over relies on it until it has called `await_resume()`; nothing prevents
another one from starting the wrapped awaiter, or from cancelling it early, in between.

* `Timely`: the runs without such a step;
* `Resolved`: what the result says about the wrapped awaiter in such runs;
* `available_of_change`: nobody who relies on the result loses it;
* `Joined`: what is known of a parent from when it joined;
* `one_outcome`: there is one outcome, it is fetched once, and every parent gets it that does not
  come too late.
-/

namespace Corral.Shared

open ActionMachine Registry AwaiterStateChecker

variable {V Err : Type*} {cas : Bool} {s t : State V Err}

/-! ### The statement -/

/-- What a parent gets from `await_resume()`: nothing if it is `std::nullopt`. -/
def observes : State V Err × Action V Err → Option (Result V Err)
  | (s, .awaitResume _ res) => match (s.fetch res).result with
    | .value v => some (.value v)
    | .exception err => some (.exception err)
    | _ => none
  | _ => none

/-- The steps that call `await_resume()` of the wrapped awaiter. -/
def fetches : State V Err × Action V Err → Bool
  | (s, .awaitResume _ _) => s.result.unfetched
  | _ => false

/-- The steps by which the parent `p` joins: it is told that the operation is over, or suspends. -/
def joins (p : ℕ) : State V Err × Action V Err → Bool
  | (s, .awaitReady q) => q == p && s.ready
  | (_, .awaitSuspend q) => q == p
  | _ => false

def Result.isIncomplete : Result V Err → Bool
  | .incomplete => true
  | _ => false

def Result.isCancelling : Result V Err → Bool
  | .cancelling => true
  | _ => false

/-- The steps in which the wrapped awaiter confirms its cancellation. -/
def confirms : State V Err × Action V Err → Bool
  | (_, .cancelReturns done) => done
  | (s, .awaitEarlyCancel _ done) => done && s.parents.isEmpty && s.result.isIncomplete
  | (s, .resumes must) => s.result.isCancelling && !must
  | _ => false

/-- The operation is to be cancelled, or has been. -/
def Result.decided : Result V Err → Bool
  | .cancelPending => true
  | .cancelling => true
  | .cancelled => true
  | _ => false

/-- The result can still be fetched, or has been. -/
def Result.available : Result V Err → Bool
  | .cancelling => false
  | .cancelled => false
  | _ => true

/-- The parent of this awaiter relies on what it has been told: that the operation is over, or that
it cannot be cancelled early. -/
def Awaiter.relies (aw : Awaiter) : Bool :=
  aw.attached && (aw.checker.state.told || aw.checker.state == .initialCxlPend ||
    aw.checker.state == .cancelPending)

/-- Some parent other than `p` relies on what it has been told. -/
def State.reliedOn (s : State V Err) (p : ℕ) : Bool :=
  s.awaiters.entries.any fun e => e.1 != p && e.2.relies

/-- A parent starts the wrapped awaiter, or cancels it early, only as long as the operation has not
ended, and nobody else relies on what it has been told. -/
def Timely (s : State V Err) : Action V Err → Prop
  | .awaitSuspend p => Prompt s (.awaitSuspend p) ∧
      (s.parents = [] → s.result.unfetched = true ∧ s.reliedOn p = false)
  | .awaitEarlyCancel p _ => s.parents = [] → s.result.isIncomplete = true →
      s.wrapped.ended = false ∧ s.reliedOn p = false
  | _ => True

instance (s : State V Err) : (a : Action V Err) → Decidable (Timely s a)
  | .awaitSuspend _ => inferInstanceAs (Decidable (_ ∧ _))
  | .awaitEarlyCancel _ _ => inferInstanceAs (Decidable (_ → _ → _))
  | .newAwaiter _ | .awaitReady _ | .awaitCancel _ | .awaitMustResume _ _
  | .awaitResume _ _ | .drop _ | .becomesReady | .resumes _ | .suspendReturns | .suspendThrows _
  | .cancelReturns _ | .next => isTrue trivial

theorem prompt_of_timely (s : State V Err) (a : Action V Err) (h : Timely s a) : Prompt s a := by
  cases a with
  | awaitSuspend p => exact h.1
  | _ => trivial

theorem relies_of_reliedOn {p q : ℕ} {aw : Awaiter} (h : s.reliedOn p = false)
    (hq : s.awaiters.lookup q = some aw) (hne : q ≠ p) : aw.relies = false := by
  have hmem : ⟨q, aw⟩ ∈ s.awaiters.entries := AList.mem_lookup_iff.1 hq
  have hall := List.any_eq_false.1 h _ hmem
  simpa [hne] using hall

/-! ### What the result says about the wrapped awaiter -/

/-- A value or an exception. -/
def Result.isOutcome : Result V Err → Bool
  | .value _ => true
  | .exception _ => true
  | _ => false

/-- The states of the checker of a parent that has asked for its own cancellation before it
suspended, or has been resumed since. -/
def afterCancel : AwaiterStateChecker.State → Bool
  | .initialCxlPend => true
  | .cancelPending => true
  | .readyAfterCancel => true
  | _ => false

structure Resolved (s : State V Err) : Prop where
  detached : ∀ p aw, s.awaiters.lookup p = some aw → aw.attached = false →
    aw.checker.state = .cancelled
  outcome : s.result.isOutcome = true → s.wrapped.running = false
  pending : s.result = .cancelPending → s.wrapped.running = false
  cancelling : s.result = .cancelling → s.wrapped.running = true
  told : ∀ p aw, s.awaiters.lookup p = some aw → aw.checker.state.told = true →
    s.result.unfetched = true → s.wrapped.running = false
  asked : ∀ p aw, s.awaiters.lookup p = some aw → afterCancel aw.checker.state = true →
    s.wrapped.running = false

theorem resolved_init : Resolved (State.init : State V Err) where
  detached := fun p aw h => by cases h
  outcome := fun h => by cases h
  pending := fun h => by cases h
  cancelling := fun h => by cases h
  told := fun p aw h => by cases h
  asked := fun p aw h => by cases h

theorem Resolved.attached (hr : Resolved s) {p : ℕ} {aw : Awaiter}
    (hp : s.awaiters.lookup p = some aw) (hst : aw.checker.state ≠ .cancelled) :
    aw.attached = true := by
  by_contra hat
  exact hst (hr.detached p aw hp (by simpa using hat))

/-- An awaiter changes, and what its parent relies on now is true. -/
theorem Resolved.setAwaiter (hr : Resolved s) {p : ℕ} {aw' : Awaiter}
    (hdet : aw'.attached = false → aw'.checker.state = .cancelled)
    (htold : aw'.checker.state.told = true → s.result.unfetched = true →
      s.wrapped.running = false)
    (hask : afterCancel aw'.checker.state = true → s.wrapped.running = false) :
    Resolved (s.setAwaiter p aw') := by
  refine { hr with detached := ?_, told := ?_, asked := ?_ }
  · intro q aw'' hq
    simp only [State.setAwaiter, lookup_insert_eq] at hq
    split_ifs at hq
    · cases hq
      exact hdet
    · exact hr.detached q aw'' hq
  · intro q aw'' hq
    simp only [State.setAwaiter, lookup_insert_eq] at hq
    split_ifs at hq
    · cases hq
      exact htold
    · exact hr.told q aw'' hq
  · intro q aw'' hq
    simp only [State.setAwaiter, lookup_insert_eq] at hq
    split_ifs at hq
    · cases hq
      exact hask
    · exact hr.asked q aw'' hq

/-- The operation is not in progress any more, and `result_` is not `Cancelling`. -/
theorem Resolved.stop (hr : Resolved s) (ha : t.awaiters = s.awaiters)
    (hrun : t.wrapped.running = false) (hres : t.result ≠ .cancelling) : Resolved t where
  detached := by rw [ha]; exact hr.detached
  outcome := fun _ => hrun
  pending := fun _ => hrun
  cancelling := fun h => absurd h hres
  told := fun _ _ _ _ _ => hrun
  asked := fun _ _ _ _ => hrun

/-- Only the log, the lists and the flags of the wrapped awaiter that do not matter change. -/
theorem Resolved.congr (hr : Resolved s) (ha : t.awaiters = s.awaiters)
    (hres : t.result = s.result) (hrun : t.wrapped.running = s.wrapped.running) : Resolved t where
  detached := by rw [ha]; exact hr.detached
  outcome := by rw [hres, hrun]; exact hr.outcome
  pending := by rw [hres, hrun]; exact hr.pending
  cancelling := by rw [hres, hrun]; exact hr.cancelling
  told := by rw [ha, hres, hrun]; exact hr.told
  asked := by rw [ha, hrun]; exact hr.asked

/-- A parent that is told that the operation is over before it has suspended. -/
theorem Resolved.running_of_ready (hr : Resolved s) (hs : Placed s) (h : s.ready = true)
    (hun : s.result.unfetched = true) : s.wrapped.running = false := by
  cases hres : s.result with
  | incomplete =>
    simp only [State.ready, hres, Bool.and_eq_true, List.isEmpty_iff] at h
    exact hs.parents.1 h.1
  | cancelPending => exact hr.pending hres
  | value | exception | cancelling | cancelled => rw [hres] at hun; cases hun

theorem afterCancel_of_readyReturned {c c' : Checker} {val : Bool}
    (h : c.readyReturned val = some c') (ha : afterCancel c'.state = true) :
    afterCancel c.state = true := by
  obtain ⟨st, ex⟩ := c
  cases st <;> cases val <;> cases h <;> first | rfl | cases ha

/-- A parent that is suspended has not been told anything since. -/
theorem not_of_suspended {st : AwaiterStateChecker.State} (h : st.suspended = true) :
    st.told = false ∧ afterCancel st = false ∧ st ≠ .cancelled := by
  cases st with
  | running => exact ⟨rfl, rfl, by simp⟩
  | cancelling => exact ⟨rfl, rfl, by simp⟩
  | _ => cases h

theorem onInvoke_ne_cancelling (r : Result V Err) (must : Bool) : r.onInvoke must ≠ .cancelling := by
  cases r <;> cases must <;> simp [Result.onInvoke]

theorem fetch_of_fetched {res : Except Err V} (h : s.result.unfetched = false) :
    s.fetch res = s := by
  unfold State.fetch
  cases hr : s.result <;> simp_all [Result.unfetched]

theorem fetch_of_unfetched {res : Except Err V} (h : s.result.unfetched = true) :
    (s.fetch res).result = .ofResume res := by
  unfold State.fetch
  cases hr : s.result <;> simp_all [Result.unfetched, State.setResult]

theorem isOutcome_ofResume (res : Except Err V) : (Result.ofResume res).isOutcome = true := by
  cases res <;> rfl

/-- A parent whose awaiter is in a state in which it may call `await_resume()`. -/
theorem Resolved.running_of_aboutToResume (hr : Resolved s) {p : ℕ} {aw : Awaiter} {c : Checker}
    (hp : s.awaiters.lookup p = some aw) (hc : aw.checker.aboutToResume = some c)
    (hun : s.result.unfetched = true) : s.wrapped.running = false :=
  hr.told p aw hp (told_of_aboutToResume hc) hun

theorem aboutToResume_state {c c' : Checker} (h : c.aboutToResume = some c') : c'.state = .done := by
  unfold Checker.aboutToResume at h
  split_ifs at h
  cases h
  rfl

theorem Resolved.starts (hr : Resolved s) {p : ℕ} {aw : Awaiter} {c : Checker}
    (hat : aw.attached = true)
    (hc : (aw.checker.aboutToSetExecutor).bind Checker.aboutToSuspend = some c)
    (hun : s.result.unfetched = true) (hrel : s.reliedOn p = false) :
    Resolved ({ s with
      parents := [p]
      result := s.result.onSuspend
      wrapped := { s.wrapped with started := true, running := true }
      stack := .awaitSuspend :: s.stack }.setAwaiter p { aw with checker := c }) := by
  obtain ⟨htold, hask, hne⟩ := not_of_suspended (suspended_of_aboutToSuspend hc).2
  -- Nobody else relies on what it has been told.
  have hother : ∀ q aw', s.awaiters.lookup q = some aw' → q ≠ p →
      aw'.checker.state.told = false ∧ afterCancel aw'.checker.state = false := by
    intro q aw' hq hne
    have hrel' := relies_of_reliedOn hrel hq hne
    by_cases hcan : aw'.checker.state = .cancelled
    · rw [hcan]
      exact ⟨rfl, rfl⟩
    · simp only [Awaiter.relies, hr.attached hq hcan, Bool.true_and, Bool.or_eq_false_iff,
        beq_eq_false_iff_ne] at hrel'
      obtain ⟨⟨h₁, h₂⟩, h₃⟩ := hrel'
      refine ⟨h₁, ?_⟩
      cases hst : aw'.checker.state <;> simp_all [afterCancel, AwaiterStateChecker.State.told]
  refine ⟨?_, ?_, ?_, fun _ => rfl, ?_, ?_⟩
  · intro q aw' hq
    simp only [State.setAwaiter, lookup_insert_eq] at hq
    split_ifs at hq
    · cases hq
      exact fun h => by simp [hat] at h
    · exact hr.detached q aw' hq
  · intro h
    cases hres : s.result <;> simp_all [State.setAwaiter, Result.onSuspend, Result.isOutcome,
      Result.unfetched]
  · exact fun h => absurd h (Result.onSuspend_ne_cancelPending _)
  · intro q aw' hq h
    simp only [State.setAwaiter, lookup_insert_eq] at hq
    split_ifs at hq with hpq
    · cases hq
      cases htold.symm.trans h
    · cases (hother q aw' hq hpq).1.symm.trans h
  · intro q aw' hq h
    simp only [State.setAwaiter, lookup_insert_eq] at hq
    split_ifs at hq with hpq
    · cases hq
      cases hask.symm.trans h
    · cases (hother q aw' hq hpq).2.symm.trans h

theorem Resolved.change {a : Action V Err} (hs : Placed s) (hr : Resolved s) (hok : Timely s a)
    (h : Change s a t) : Resolved t := by
  cases h with
  | newAwaiter =>
    refine Resolved.setAwaiter ?_ ?_ ?_ ?_
    · exact hr.congr rfl rfl rfl
    · rintro ⟨⟩
    · rintro ⟨⟩
    · rintro ⟨⟩
  | @asks p aw c log hp hc =>
    have hne : aw.checker.state ≠ .cancelled := by
      intro hcan
      rw [readyReturned_of_cancelled hcan] at hc
      cases hc
    have hat := hr.attached hp hne
    have hbase : Resolved { s with log := log } := hr.congr rfl rfl rfl
    refine hbase.setAwaiter (fun h => by simp [hat] at h) ?_ ?_
    · intro htold hun
      have hready := told_of_readyReturned hc htold
      simp only [hat, Bool.not_true, Bool.false_or] at hready
      have hrun := hr.running_of_ready hs hready hun
      exact hrun
    · exact fun h => hr.asked p aw hp (afterCancel_of_readyReturned hc h)
  | skips hp _ hc =>
    have hcan := cancelled_of_earlyCancelReturned hc
    exact hr.setAwaiter (fun _ => hcan) (fun h => by simp [hcan, AwaiterStateChecker.State.told] at h)
      fun h => by simp [hcan, afterCancel] at h
  | cancelledEarly hp hf hc =>
    have hcan := cancelled_of_earlyCancelReturned hc
    have hbase : Resolved (s.setResult .cancelled) :=
      hr.stop rfl (hs.parents.1 hf.2.1) (by simp [State.setResult])
    exact hbase.setAwaiter (fun _ => hcan)
      (fun h => by simp [hcan, AwaiterStateChecker.State.told] at h)
      fun h => by simp [hcan, afterCancel] at h
  | refusedEarly hp hf hc =>
    have hrun := hs.parents.1 hf.2.1
    have hbase : Resolved
        ((s.setResult .cancelPending).setWrapped { s.wrapped with refused := true }) :=
      hr.stop rfl hrun (by simp [State.setResult, State.setWrapped])
    exact hbase.setAwaiter (fun h => by simp [hf.1] at h) (fun _ _ => hrun) fun _ => hrun
  | starts hp hat hc hnil =>
    obtain ⟨hun, hrel⟩ := hok.2 hnil
    exact hr.starts hat hc hun hrel
  | joins hp hat hc =>
    obtain ⟨htold, hask, -⟩ := not_of_suspended (suspended_of_aboutToSuspend hc).2
    refine Resolved.setAwaiter ?_ (fun h => by simp [hat] at h) ?_ ?_
    · exact hr.congr rfl rfl rfl
    · exact fun h => by cases htold.symm.trans h
    · exact fun h => by cases hask.symm.trans h
  | cancelsDetached hp hat hrun => cases hrun.symm.trans (hr.detached _ _ hp hat)
  | cancelsLast hp hat hst hpar =>
    have hrun : s.wrapped.running = true := by
      by_contra hno
      rw [hs.parents.2 (by simpa using hno)] at hpar
      cases hpar
    refine Resolved.setAwaiter ?_ (fun h => by simp [hat] at h) (by rintro ⟨⟩) (by rintro ⟨⟩)
    exact ⟨hr.detached, by rintro ⟨⟩, by rintro ⟨⟩, fun _ => hrun, fun _ _ _ _ h => (by cases h),
      hr.asked⟩
  | cancelsOther =>
    refine Resolved.setAwaiter ?_ (fun _ => rfl) ?_ ?_
    · exact hr.congr rfl rfl rfl
    · rintro ⟨⟩
    · rintro ⟨⟩
  | mustResume hp hst =>
    have hrun := hr.asked _ _ hp (by rw [hst]; rfl)
    have hat := hr.attached hp (by simp [hst])
    refine Resolved.setAwaiter ?_ (fun h => by simp [hat] at h) (fun _ _ => hrun) fun _ => hrun
    exact hr.congr rfl rfl rfl
  | @resumes p aw c res log hp hat hc =>
    have hdone := aboutToResume_state hc
    have hbase : Resolved { s with result := (s.fetch res).result, log := log } := by
      by_cases hun : s.result.unfetched = true
      · refine hr.stop rfl (hr.running_of_aboutToResume hp hc hun) ?_
        show (s.fetch res).result ≠ _
        rw [fetch_of_unfetched hun]
        cases res <;> simp [Result.ofResume]
      · refine hr.congr rfl ?_ rfl
        show (s.fetch res).result = _
        rw [fetch_of_fetched (by simpa using hun)]
    exact hbase.setAwaiter (fun h => by simp [hat] at h)
      (fun h => by simp [hdone, AwaiterStateChecker.State.told] at h)
      fun h => by simp [hdone, afterCancel] at h
  | drop =>
    exact { hr with
      detached := fun q aw hq => hr.detached q aw (lookup_of_lookup_erase hq)
      told := fun q aw hq => hr.told q aw (lookup_of_lookup_erase hq)
      asked := fun q aw hq => hr.asked q aw (lookup_of_lookup_erase hq) }
  | becomesReady => exact hr.congr rfl rfl rfl
  | completes => exact hr.stop rfl rfl (onInvoke_ne_cancelling _ _)
  | suspendReturns => exact hr.congr rfl rfl rfl
  | throws => exact hr.stop rfl rfl (by simp)
  | @confirms p aw below hst hp hrun hcan =>
    refine Resolved.setAwaiter ?_ (fun _ => rfl) ?_ ?_
    · exact hr.stop rfl rfl (by simp [State.unlink])
    · rintro ⟨⟩
    · rintro ⟨⟩
  | refuses hst hp =>
    refine Resolved.setAwaiter ?_ (hr.detached _ _ hp) (hr.told _ _ hp) (hr.asked _ _ hp)
    exact hr.congr rfl rfl rfl
  | invoked => exact hr.congr rfl rfl rfl
  | wakesUp hst hp hc =>
    have hend := hs.woken _ (hst ▸ List.mem_cons_self)
    have hrun := hs.parents.1 (hs.parents_of_ended hend)
    have hat := hs.attached _ _ hp (suspended_of_resumed hc).1
    refine Resolved.setAwaiter ?_ (fun h => by simp [hat] at h) (fun _ _ => hrun) fun _ => hrun
    exact hr.congr rfl rfl rfl

theorem resolved_of_reach (h : Reach (step cas) Timely (.init : State V Err) s) :
    Resolved s :=
  h.invariant_of (J := Placed) (fun _ => placed_of_reach prompt_of_timely) resolved_init
    fun _ _ _ hs hr hok hstep => hr.change hs hok (change_of_step hstep)

/-! ### Nobody loses the result -/

/-- The states in which a parent waits for the result, or has been told that it is there. -/
def expects : AwaiterStateChecker.State → Bool
  | .running => true
  | .readyImmediately => true
  | .ready => true
  | .readyAfterCancel => true
  | _ => false

theorem not_expects_of_aboutToSuspend {c c' : Checker}
    (h : (c.aboutToSetExecutor).bind Checker.aboutToSuspend = some c') :
    expects c.state = false := by
  obtain ⟨st, ex⟩ := c
  cases st <;> first | rfl | cases h

/-- While nobody relies on the result and the operation has not been started, nobody waits for it. -/
theorem not_expects {p q : ℕ} {aw : Awaiter} (hs : Placed s) (hr : Resolved s)
    (hp : s.awaiters.lookup p = some aw) (hne : p ≠ q) (hnil : s.parents = [])
    (hend : s.wrapped.ended = false) (hrel : s.reliedOn q = false) :
    expects aw.checker.state = false := by
  have hno := relies_of_reliedOn hrel hp hne
  have hmem := hs.mem_waiting hp
  rw [hs.waiting_of_not_ended hend, hnil] at hmem
  by_contra hst
  have hat : aw.attached = true := hr.attached hp fun h => by simp [h, expects] at hst
  cases hc : aw.checker.state <;> simp_all [expects, AwaiterStateChecker.State.suspended,
    AwaiterStateChecker.State.told, Awaiter.relies]

/-- A result that is there, or that can be fetched, stays so for a parent that waits for it, unless
this parent itself is cancelled. -/
theorem available_of_change {a : Action V Err} {p : ℕ} {aw : Awaiter} (hs : Placed s)
    (hr : Resolved s) (hok : Timely s a) (h : Change s a t) (hp : s.awaiters.lookup p = some aw)
    (hst : expects aw.checker.state = true) (hav : s.result.available = true) :
    t.result.available = true ∨ a = .awaitCancel p ∨ ∃ done, a = .awaitEarlyCancel p done := by
  -- While the operation is in progress, the parent is one of those that wait.
  have hwait : s.wrapped.running = true → p ∈ s.parents := by
    intro hrun
    have hmem := hs.mem_waiting hp
    rw [hs.waiting_of_not_ended (not_ended_of_running hrun)] at hmem
    rw [hmem]
    by_contra hsus
    have htold : aw.checker.state.told = true := by
      cases hc : aw.checker.state <;> simp_all [expects, AwaiterStateChecker.State.suspended,
        AwaiterStateChecker.State.told]
    cases hres : s.result with
    | incomplete => cases hrun.symm.trans (hr.told p aw hp htold (by rw [hres]; rfl))
    | cancelPending => cases hrun.symm.trans (hr.pending hres)
    | value v => cases hrun.symm.trans (hr.outcome (by rw [hres]; rfl))
    | exception err => cases hrun.symm.trans (hr.outcome (by rw [hres]; rfl))
    | cancelling => rw [hres] at hav; cases hav
    | cancelled => rw [hres] at hav; cases hav
  cases h with
  | @starts q aw' c hq _ hc hnil =>
    have hne : p ≠ q := by
      rintro rfl
      cases hp.symm.trans hq
      cases (not_expects_of_aboutToSuspend hc).symm.trans hst
    cases (not_expects hs hr hp hne hnil hok.1.1 (hok.2 hnil).2).symm.trans hst
  | @cancelsLast q _ _ _ _ hpar =>
    have hrun : s.wrapped.running = true := by
      by_contra hno
      rw [hs.parents.2 (by simpa using hno)] at hpar
      cases hpar
    have hmem := hwait hrun
    rw [hpar, List.mem_singleton] at hmem
    exact .inr (.inl (by rw [hmem]))
  | @cancelledEarly q _ _ _ hf =>
    by_cases hne : p = q
    · exact .inr (.inr ⟨true, by rw [hne]⟩)
    · obtain ⟨hend, hrel⟩ := hok hf.2.1 (by rw [hf.2.2]; rfl)
      cases (not_expects hs hr hp hne hf.2.1 hend hrel).symm.trans hst
  | refusedEarly => exact .inl rfl
  | @resumes _ _ _ res =>
    left
    show (s.fetch res).result.available = true
    by_cases hun : s.result.unfetched = true
    · rw [fetch_of_unfetched hun]
      cases res <;> rfl
    · rw [fetch_of_fetched (by simpa using hun)]
      exact hav
  | completes =>
    left
    show (s.result.onInvoke _).available = true
    cases hres : s.result <;> first | rfl | (rw [hres] at hav; cases hav)
  | throws => exact .inl rfl
  | @confirms q aw' below hstack hq hrun hcan =>
    have hmem := hwait hrun
    rw [hs.sole q (hstack ▸ List.mem_cons_self) hrun, List.mem_singleton] at hmem
    subst hmem
    cases hp.symm.trans hq
    rw [hcan] at hst
    cases hst
  | _ => exact .inl hav

theorem unfetched_of_isOutcome {r : Result V Err} (h : r.isOutcome = true) :
    r.unfetched = false := by
  cases r <;> first | rfl | cases h

/-- An outcome is final. -/
theorem result_of_change {a : Action V Err} (hs : Placed s) (hr : Resolved s) (hok : Timely s a)
    (h : Change s a t) (hout : s.result.isOutcome = true) : t.result = s.result := by
  have hrun := hr.outcome hout
  have hno : s.wrapped.running ≠ true := by simp [hrun]
  cases h with
  | starts _ _ _ hnil =>
    cases (unfetched_of_isOutcome hout).symm.trans (hok.2 hnil).1
  | cancelsLast _ _ _ hpar =>
    rw [hs.parents.2 hrun] at hpar
    cases hpar
  | cancelledEarly _ hf =>
    rw [hf.2.2] at hout
    cases hout
  | refusedEarly _ hf =>
    rw [hf.2.2] at hout
    cases hout
  | @resumes _ _ _ res =>
    show (s.fetch res).result = s.result
    rw [fetch_of_fetched (unfetched_of_isOutcome hout)]
  | completes hyes => exact absurd hyes hno
  | throws _ hyes => exact absurd hyes hno
  | confirms _ _ hyes => exact absurd hyes hno
  | _ => rfl

theorem isOutcome_of_observes {x : State V Err × Action V Err} {r : Result V Err}
    (h : observes x = some r) : r.isOutcome = true := by
  obtain ⟨s, a⟩ := x
  cases a with
  | awaitResume p res =>
    simp only [observes] at h
    split at h
    · cases h
      rfl
    · cases h
      rfl
    · cases h
  | _ => cases h

theorem result_of_observes {a : Action V Err} {r : Result V Err} (h : Change s a t)
    (hobs : observes (s, a) = some r) : t.result = r := by
  cases h with
  | @resumes _ _ _ res =>
    show (s.fetch res).result = r
    simp only [observes] at hobs
    split at hobs
    · rename_i v hv
      exact hv.trans (Option.some.inj hobs)
    · rename_i err herr
      exact herr.trans (Option.some.inj hobs)
    · cases hobs
  | _ => cases hobs

theorem isOutcome_of_fetches {a : Action V Err} (h : Change s a t) (hf : fetches (s, a) = true) :
    t.result.isOutcome = true := by
  cases h with
  | @resumes _ _ _ res =>
    show (s.fetch res).result.isOutcome = true
    rw [fetch_of_unfetched hf]
    exact isOutcome_ofResume res
  | _ => cases hf

/-- What has been observed is the result, and it has been fetched at most once. -/
theorem observed_of_run {l : List (State V Err × Action V Err)}
    (h : Run (step cas) Timely (.init : State V Err) l s) :
    (∀ x ∈ l, ∀ r, observes x = some r → s.result = r) ∧
      (l.countP fetches = 0 ∨ l.countP fetches = 1 ∧ s.result.isOutcome = true) := by
  refine h.invariant_of (J := fun _ s => Placed s ∧ Resolved s)
    (I := fun l s => (∀ x ∈ l, ∀ r, observes x = some r → s.result = r) ∧
      (l.countP fetches = 0 ∨ l.countP fetches = 1 ∧ s.result.isOutcome = true))
    (fun _ _ hr => ⟨placed_of_reach prompt_of_timely hr.reach, resolved_of_reach hr.reach⟩)
    ⟨by simp, .inl rfl⟩ ?_
  rintro l s a t ⟨hs, hr⟩ ⟨hobs, hcount⟩ hok hstep
  have hch := change_of_step hstep
  refine ⟨fun x hx r hxr => ?_, ?_⟩
  · rcases List.mem_append.1 hx with hx | hx
    · have hres := hobs x hx r hxr
      have hout := isOutcome_of_observes hxr
      rw [← hres] at hout
      exact (result_of_change hs hr hok hch hout).trans hres
    · rw [List.mem_singleton.1 hx] at hxr
      exact result_of_observes hch hxr
  · rw [List.countP_append, List.countP_singleton]
    by_cases hf : fetches (s, a) = true
    · rw [if_pos hf]
      rcases hcount with h0 | ⟨-, hout⟩
      · exact .inr ⟨by omega, isOutcome_of_fetches hch hf⟩
      · -- The result has been fetched, so nobody fetches it again.
        cases a with
        | awaitResume p res => cases (unfetched_of_isOutcome hout).symm.trans hf
        | _ => cases hf
    · rw [if_neg hf, Nat.add_zero]
      refine hcount.imp_right (And.imp_right fun hout => ?_)
      rw [result_of_change hs hr hok hch hout]
      exact hout

/-! ### Who comes too late -/

/-- The states in which a parent has not joined yet. -/
def unjoined : AwaiterStateChecker.State → Bool
  | .initial => true
  | .notReady => true
  | .initialCxlPend => true
  | .cancelPending => true
  | _ => false

/-- The states in which a parent waits for the result, or has been told that it is there and is
going to take it. -/
def claims : AwaiterStateChecker.State → Bool
  | .running => true
  | .readyImmediately => true
  | .ready => true
  | _ => false

theorem expects_of_claims {st : AwaiterStateChecker.State} (h : claims st = true) :
    expects st = true := by
  cases st <;> first | rfl | cases h

/-- Where a parent that claims the result comes from. -/
theorem claims_of_moved {a : Action V Err} {p : ℕ} {c c' : Checker} (h : Moved s t p a c c')
    (hst : claims c'.state = true) :
    claims c.state = true ∧ a ≠ .awaitCancel p ∧ (∀ done, a ≠ .awaitEarlyCancel p done) ∨
      unjoined c.state = true ∨
      c.state = .readyAfterCancel ∧ s.result ≠ .cancelled ∧ t.result = s.result := by
  obtain ⟨st, ex⟩ := c
  cases h with
  | stays hne =>
    refine .inl ⟨hst, ?_, ?_⟩
    · rintro rfl
      exact hne rfl
    · rintro done rfl
      exact hne rfl
  | @asks _ _ val _ hc =>
    cases st <;> cases val <;> cases hc <;>
      first | exact .inl ⟨rfl, by simp, by simp⟩ | exact .inr (.inl rfl) | cases hst
  | @cancelsEarly _ _ _ val hc => cases st <;> cases val <;> cases hc <;> cases hst
  | suspends hc =>
    right
    left
    cases st <;> cases hc <;> rfl
  | cancels _ hor => rcases hor with rfl | rfl <;> cases hst
  | @mustResume _ _ val hrac hcan hres =>
    cases val with
    | true => exact .inr (.inr ⟨hrac, hcan rfl, hres⟩)
    | false => cases hst
  | resumes hc => cases st <;> cases hc <;> cases hst
  | confirms => cases hst
  | wakesUp hc =>
    cases st <;> cases hc <;> first | exact .inl ⟨rfl, by simp, by simp⟩ | cases hst

theorem caller_of_joins {a : Action V Err} {p : ℕ} (h : joins p (s, a) = true) :
    a.caller = some p := by
  cases a with
  | awaitReady q =>
    simp only [joins, Bool.and_eq_true, beq_iff_eq] at h
    rw [← h.1]
    rfl
  | awaitSuspend q =>
    simp only [joins, beq_iff_eq] at h
    rw [← h]
    rfl
  | _ => cases h

/-- A parent that has not joined yet had not joined before. -/
theorem unjoined_of_moved {a : Action V Err} {p : ℕ} {c c' : Checker} (h : Moved s t p a c c')
    (hst : unjoined c'.state = true) : unjoined c.state = true ∧ joins p (s, a) = false := by
  obtain ⟨st, ex⟩ := c
  cases h with
  | stays hne =>
    refine ⟨hst, ?_⟩
    by_contra hj
    exact hne (caller_of_joins (by simpa using hj))
  | @asks _ _ val hready hc =>
    cases val with
    | true => cases st <;> cases hc <;> cases hst
    | false =>
      refine ⟨?_, by simp [joins, hready rfl]⟩
      cases st <;> cases hc <;> rfl
  | @cancelsEarly _ _ _ val hc =>
    cases st <;> cases val <;> cases hc <;> first | exact ⟨rfl, rfl⟩ | cases hst
  | suspends hc => cases st <;> cases hc <;> cases hst
  | cancels _ hor => rcases hor with rfl | rfl <;> cases hst
  | @mustResume _ _ val => cases val <;> cases hst
  | resumes hc => cases st <;> cases hc <;> cases hst
  | confirms => cases hst
  | wakesUp hc => cases st <;> cases hc <;> cases hst

/-- Who joins is there. -/
theorem lookup_of_joins {a : Action V Err} {p : ℕ} (h : Change s a t)
    (hj : joins p (s, a) = true) : ∃ aw, s.awaiters.lookup p = some aw := by
  cases h with
  | asks hq =>
    simp only [Shared.joins, Bool.and_eq_true, beq_iff_eq] at hj
    exact ⟨_, hj.1 ▸ hq⟩
  | starts hq =>
    simp only [Shared.joins, beq_iff_eq] at hj
    exact ⟨_, hj ▸ hq⟩
  | joins hq =>
    simp only [Shared.joins, beq_iff_eq] at hj
    exact ⟨_, hj ▸ hq⟩
  | _ => cases hj

/-- Joining an operation that is not to be cancelled leaves the result there. -/
theorem available_of_joins {a : Action V Err} {p : ℕ} (h : Change s a t)
    (hj : joins p (s, a) = true) (hdec : s.result.decided = false) :
    t.result.available = true := by
  have hav : s.result.available = true := by
    cases hres : s.result <;> first | rfl | (rw [hres] at hdec; cases hdec)
  cases h with
  | asks => exact hav
  | starts =>
    show s.result.onSuspend.available = true
    cases hres : s.result <;> first | rfl | (rw [hres] at hdec; cases hdec)
  | joins => exact hav
  | _ => cases hj

/-- The result is there for a parent whose cancellation has not been confirmed. -/
theorem Resolved.available (hr : Resolved s) {p : ℕ} {aw : Awaiter}
    (hp : s.awaiters.lookup p = some aw) (hst : aw.checker.state = .readyAfterCancel)
    (hcan : s.result ≠ .cancelled) : s.result.available = true := by
  have hrun := hr.asked p aw hp (by rw [hst]; rfl)
  cases hres : s.result with
  | cancelling => cases hrun.symm.trans (hr.cancelling hres)
  | cancelled => exact absurd hres hcan
  | incomplete | cancelPending | value | exception => rfl

/-- A parent that has joined has just done so, or had joined before. -/
theorem joins_of_change {a : Action V Err} {p : ℕ} {aw' : Awaiter} (hr : Resolved s)
    (h : Change s a t) (hp : t.awaiters.lookup p = some aw')
    (hst : unjoined aw'.checker.state = false) (hcan : aw'.checker.state ≠ .cancelled) :
    joins p (s, a) = true ∨ ∃ aw, s.awaiters.lookup p = some aw ∧
      unjoined aw.checker.state = false ∧ aw.checker.state ≠ .cancelled := by
  rcases moved_of_change h hp with ⟨-, hinit, -, -⟩ | ⟨aw, hq, hm⟩
  · rw [hinit] at hst
    cases hst
  by_cases hold : unjoined aw.checker.state = false ∧ aw.checker.state ≠ .cancelled
  · exact .inr ⟨aw, hq, hold⟩
  left
  obtain ⟨at', op, ⟨st, ex⟩⟩ := aw
  obtain ⟨at'', op'', c'⟩ := aw'
  cases hm with
  | stays => exact absurd ⟨hst, hcan⟩ hold
  | asks =>
    -- Had it been told that it need not suspend because it is detached, it would be cancelled.
    cases h with
    | @asks _ aw _ _ hq' hc =>
      cases hq.symm.trans hq'
      rcases lookup_setAwaiter rfl hp with ⟨-, heq⟩ | ⟨hne, -⟩
      · cases heq
        by_cases hat : at' = true
        · subst hat
          cases hready : s.ready with
          | true => simp [Shared.joins, hready]
          | false => rw [hready] at hc; cases st <;> cases hc <;> cases hst
        · have hcan' := hr.detached p _ hq (by simpa using hat)
          rw [readyReturned_of_cancelled hcan'] at hc
          cases hc
      · exact absurd rfl hne
  | @cancelsEarly _ _ _ val hc =>
    cases st <;> cases val <;> cases hc <;>
      first | exact absurd rfl hcan | exact absurd ⟨rfl, by simp⟩ hold | cases hst
  | suspends => simp [Shared.joins]
  | cancels hrun => cases hrun; simp [unjoined] at hold
  | mustResume hrac => cases hrac; simp [unjoined] at hold
  | resumes hc => cases st <;> cases hc <;> simp [unjoined] at hold
  | confirms => exact absurd rfl hcan
  | wakesUp hc => cases st <;> cases hc <;> simp [unjoined] at hold

/-- What is known of a parent from when it joined. -/
structure Joined (l : List (State V Err × Action V Err)) (s : State V Err) : Prop where
  issued : ∀ p, s.nextId ≤ p → ∀ x ∈ l, joins p x = false
  unjoined : ∀ p aw, s.awaiters.lookup p = some aw → unjoined aw.checker.state = true →
    ∀ x ∈ l, joins p x = false
  joined : ∀ p aw, s.awaiters.lookup p = some aw → Shared.unjoined aw.checker.state = false →
    aw.checker.state ≠ .cancelled → ∃ x ∈ l, joins p x = true
  claims : ∀ p aw, s.awaiters.lookup p = some aw → claims aw.checker.state = true →
    ∀ x ∈ l, joins p x = true → x.1.result.decided = false → s.result.available = true

theorem Joined.step {l : List (State V Err × Action V Err)} {a : Action V Err}
    (hj : Joined l s) (hs : Placed s) (hr : Resolved s) (hok : Timely s a) (h : Change s a t) :
    Joined (l ++ [(s, a)]) t := by
  refine ⟨fun p hp x hx => ?_, fun p aw' hp hst x hx => ?_, fun p aw' hp hst hcan => ?_,
    fun p aw' hp hst x hx hjx hdec => ?_⟩
  · have hle := nextId_of_change h
    rcases List.mem_append.1 hx with hx | hx
    · exact hj.issued p (hle.trans hp) x hx
    · rw [List.mem_singleton.1 hx]
      by_contra hja
      obtain ⟨aw, hq⟩ := lookup_of_joins h (by simpa using hja)
      have hlt := hs.fresh p aw hq
      omega
  · rcases moved_of_change h hp with ⟨rfl, -, hcall, -⟩ | ⟨aw, hq, hm⟩
    · rcases List.mem_append.1 hx with hx | hx
      · exact hj.issued s.nextId le_rfl x hx
      · rw [List.mem_singleton.1 hx]
        by_contra hja
        cases hcall.symm.trans (caller_of_joins (by simpa using hja))
    · obtain ⟨hst', hno⟩ := unjoined_of_moved hm hst
      rcases List.mem_append.1 hx with hx | hx
      · exact hj.unjoined p aw hq hst' x hx
      · rw [List.mem_singleton.1 hx]
        exact hno
  · rcases joins_of_change hr h hp hst hcan with hnow | ⟨aw, hq, hst', hcan'⟩
    · exact ⟨(s, a), by simp, hnow⟩
    · obtain ⟨x, hx, hjx⟩ := hj.joined p aw hq hst' hcan'
      exact ⟨x, List.mem_append_left _ hx, hjx⟩
  · rcases List.mem_append.1 hx with hx | hx
    · rcases moved_of_change h hp with ⟨-, hinit, -, -⟩ | ⟨aw, hq, hm⟩
      · rw [hinit] at hst
        cases hst
      rcases claims_of_moved hm hst with ⟨hcl, hnc, hne⟩ | hun | ⟨hrac, hcan, hres⟩
      · have hav := hj.claims p aw hq hcl x hx hjx hdec
        rcases available_of_change hs hr hok h hq (expects_of_claims hcl) hav with ht | ht | ht
        · exact ht
        · exact absurd ht hnc
        · obtain ⟨done, ht⟩ := ht
          exact absurd ht (hne done)
      · cases (hj.unjoined p aw hq hun x hx).symm.trans hjx
      · rw [hres]
        exact hr.available hq hrac hcan
    · rw [List.mem_singleton.1 hx] at hjx hdec
      exact available_of_joins h hjx hdec

theorem joined_of_run {l : List (State V Err × Action V Err)}
    (h : Run (step cas) Timely (.init : State V Err) l s) : Joined l s := by
  refine h.invariant_of (J := fun _ s => Placed s ∧ Resolved s) (I := Joined)
    (fun _ _ hr => ⟨placed_of_reach prompt_of_timely hr.reach, resolved_of_reach hr.reach⟩)
    ⟨by simp, by simp, fun p aw hp => (by cases hp), by simp⟩ ?_
  rintro l s a t ⟨hs, hr⟩ hj hok hstep
  exact hj.step hs hr hok (change_of_step hstep)

/-! ### Cancellations that are not confirmed -/

/-- The result is `Cancelled` because the wrapped awaiter has confirmed its cancellation. -/
theorem confirms_of_change {a : Action V Err} (h : Change s a t) (hcan : t.result = .cancelled) :
    s.result = .cancelled ∨ confirms (s, a) = true := by
  cases h with
  | cancelledEarly _ hf => exact .inr (by simp [Shared.confirms, hf.2.1, hf.2.2, Result.isIncomplete])
  | refusedEarly => cases hcan
  | starts =>
    left
    cases hres : s.result <;> simp_all [State.setAwaiter, Result.onSuspend]
  | cancelsLast => cases hcan
  | @resumes _ _ _ res =>
    left
    have hfetch : (s.fetch res).result = .cancelled := hcan
    by_cases hun : s.result.unfetched = true
    · have hout := isOutcome_ofResume res
      rw [← fetch_of_unfetched hun, hfetch] at hout
      cases hout
    · rwa [fetch_of_fetched (by simpa using hun)] at hfetch
  | @completes must =>
    cases hres : s.result <;> cases must <;>
      simp_all [Result.onInvoke, Shared.confirms, Result.isCancelling]
  | throws => cases hcan
  | confirms => exact .inr rfl
  | _ => exact .inl hcan

theorem confirms_of_run {ok : State V Err → Action V Err → Prop}
    {l : List (State V Err × Action V Err)}
    (h : Run (step cas) ok (.init : State V Err) l s) :
    s.result = .cancelled → ∃ x ∈ l, confirms x = true := by
  refine h.invariant (I := fun l s => s.result = .cancelled → ∃ x ∈ l, confirms x = true)
    (fun h => by cases h) ?_
  intro l s a t hinv _ hstep hcan
  rcases confirms_of_change (change_of_step hstep) hcan with hold | hnow
  · obtain ⟨x, hx, hc⟩ := hinv hold
    exact ⟨x, List.mem_append_left _ hx, hc⟩
  · exact ⟨(s, a), by simp, hnow⟩

/-- The states of a parent that has been resumed after it had asked for its cancellation, from then
on. -/
def afterwards : AwaiterStateChecker.State → Bool
  | .readyAfterCancel => true
  | .ready => true
  | .cancelled => true
  | .done => true
  | _ => false

theorem afterwards_of_moved {a : Action V Err} {p : ℕ} {c c' : Checker} (h : Moved s t p a c c')
    (hst : afterwards c.state = true) :
    afterwards c'.state = true ∧ (expects c'.state = true → expects c.state = true ∧
      a ≠ .awaitCancel p ∧ ∀ done, a ≠ .awaitEarlyCancel p done) := by
  obtain ⟨st, ex⟩ := c
  cases h with
  | stays hne =>
    refine ⟨hst, fun hexp => ⟨hexp, ?_, ?_⟩⟩
    · rintro rfl
      exact hne rfl
    · rintro done rfl
      exact hne rfl
  | @asks _ _ val _ hc =>
    cases st <;> cases val <;> cases hc <;>
      first | exact ⟨rfl, fun _ => ⟨rfl, by simp, by simp⟩⟩ | cases hst
  | @cancelsEarly _ _ _ val hc => cases st <;> cases val <;> cases hc <;> cases hst
  | suspends hc => cases st <;> cases hc <;> cases hst
  | cancels hrun => cases hrun; cases hst
  | @mustResume _ _ val hrac =>
    cases hrac
    cases val <;> exact ⟨rfl, fun _ => ⟨rfl, by simp, by simp⟩⟩
  | resumes hc => cases st <;> cases hc <;> exact ⟨rfl, fun h => by cases h⟩
  | confirms => exact ⟨rfl, fun h => by cases h⟩
  | wakesUp hc => cases st <;> cases hc <;> cases hst

/-- The parent `p` is in one of these states, and the result is there for it. -/
structure Kept (s : State V Err) (p : ℕ) : Prop where
  issued : p < s.nextId
  afterwards : ∀ aw, s.awaiters.lookup p = some aw → afterwards aw.checker.state = true
  available : ∀ aw, s.awaiters.lookup p = some aw → expects aw.checker.state = true →
    s.result.available = true

theorem Kept.change {a : Action V Err} {p : ℕ} (hk : Kept s p) (hs : Placed s) (hr : Resolved s)
    (hok : Timely s a) (h : Change s a t) : Kept t p := by
  have hlt := hk.issued
  have hold : ∀ aw', t.awaiters.lookup p = some aw' →
      ∃ aw, s.awaiters.lookup p = some aw ∧ Moved s t p a aw.checker aw'.checker := by
    intro aw' hp
    rcases moved_of_change h hp with ⟨hnew, -⟩ | hm
    · omega
    · exact hm
  refine ⟨hlt.trans_le (nextId_of_change h), fun aw' hp => ?_, fun aw' hp hexp => ?_⟩
  · obtain ⟨aw, hq, hm⟩ := hold aw' hp
    exact (afterwards_of_moved hm (hk.afterwards aw hq)).1
  · obtain ⟨aw, hq, hm⟩ := hold aw' hp
    obtain ⟨hexp', hnc, hne⟩ := (afterwards_of_moved hm (hk.afterwards aw hq)).2 hexp
    have hav := hk.available aw hq hexp'
    rcases available_of_change hs hr hok h hq hexp' hav with ht | ht | ⟨done, ht⟩
    · exact ht
    · exact absurd ht hnc
    · exact absurd ht (hne done)

theorem kept_of_reach {u : State V Err} {p : ℕ}
    (h : Reach (step cas) Timely (.init : State V Err) s) (hin : s.isIn p .readyAfterCancel)
    (hcan : s.result ≠ .cancelled) (hu : Reach (step cas) Timely s u) : Kept u p := by
  refine hu.invariant_of (J := fun u => Placed u ∧ Resolved u) (I := fun u => Kept u p)
    (fun _ ht => ⟨placed_of_reach prompt_of_timely (h.trans ht), resolved_of_reach (h.trans ht)⟩)
    ?_ ?_
  · obtain ⟨aw, hp, hst⟩ := hin
    have hav := (resolved_of_reach h).available hp hst hcan
    refine ⟨(placed_of_reach prompt_of_timely h).fresh p aw hp, fun aw' hp' => ?_, fun _ _ _ => hav⟩
    cases hp.symm.trans hp'
    rw [hst]
    rfl
  · rintro u a t ⟨hs, hr⟩ hk hok hstep
    exact hk.change hs hr hok (change_of_step hstep)

/-- A parent that is told that its cancellation has not been confirmed gets the result. -/
theorem Resolved.exists_mustResume (hr : Resolved s) {p : ℕ} (hin : s.isIn p .readyAfterCancel)
    (hav : s.result.available = true) {must : Bool} (hmust : s.result = .cancelPending → must = true) :
    ∃ t, step false s (.awaitMustResume p must) = .ok t ∧ t.isIn p .ready := by
  obtain ⟨aw, hp, hst⟩ := hin
  have hat := hr.attached hp (by simp [hst])
  have hret : (s.askMustResume must).1 = true := by
    cases hres : s.result <;> simp_all [State.askMustResume, Result.available]
  simp only [step, Action.caller, hp, State.perform, State.mustResume, hat, hret, Bool.false_and,
    Checker.mustResumeReturned, hst, if_true, State.check]
  exact ⟨_, rfl, isIn_setAwaiter_self.2 rfl⟩

theorem observes_of_available {p : ℕ} (res : Except Err V) (hav : s.result.available = true) :
    observes (s, .awaitResume p res) = some (s.fetch res).result := by
  have hout : (s.fetch res).result.isOutcome = true := by
    by_cases hun : s.result.unfetched = true
    · rw [fetch_of_unfetched hun]
      exact isOutcome_ofResume res
    · rw [fetch_of_fetched (by simpa using hun)]
      cases hres : s.result <;> simp_all [Result.available, Result.unfetched, Result.isOutcome]
  cases hf : (s.fetch res).result with
  | value v => simp only [observes, hf]
  | exception err => simp only [observes, hf]
  | incomplete | cancelPending | cancelling | cancelled => rw [hf] at hout; cases hout

theorem Resolved.exists_awaitResume (hr : Resolved s) {p : ℕ} (hin : s.isIn p .ready)
    (hav : s.result.available = true) (res : Except Err V) :
    ∃ t r, step cas s (.awaitResume p res) = .ok t ∧
      observes (s, .awaitResume p res) = some r := by
  obtain ⟨aw, hp, hst⟩ := hin
  have hat := hr.attached hp (by simp [hst])
  have hobs : observes (s, .awaitResume p res) = _ := observes_of_available res hav
  have hout := isOutcome_of_observes hobs
  have hstep : ∃ t, step cas s (.awaitResume p res) = .ok t := by
    simp only [step, Action.caller, hp, State.perform, State.awaitResume, hat,
      Checker.aboutToResume, hst]
    cases hf : (s.fetch res).result with
    | value v => exact ⟨_, rfl⟩
    | exception err => exact ⟨_, rfl⟩
    | incomplete | cancelPending | cancelling | cancelled => rw [hf] at hout; cases hout
  obtain ⟨t, hstep⟩ := hstep
  exact ⟨t, _, hstep, hobs⟩

/-! ### The outcome -/

/-- The parent `p` has been resumed after it had asked for its cancellation.  If the wrapped awaiter,
when it is asked, says that the cancellation has not taken place, the parent is told so; and then it
gets the outcome. -/
def Receives (cas : Bool) (s : State V Err) (p : ℕ) : Prop :=
  (cas = false → s.isIn p .readyAfterCancel →
    ∀ must, (s.result = .cancelPending → must = true) →
      ∃ t, step cas s (.awaitMustResume p must) = .ok t ∧ t.isIn p .ready) ∧
  (s.isIn p .ready → ∀ res, ∃ t r, step cas s (.awaitResume p res) = .ok t ∧
    observes (s, .awaitResume p res) = some r)

theorem Kept.receives {p : ℕ} (hk : Kept s p) (hr : Resolved s) : Receives cas s p := by
  constructor
  · rintro rfl ⟨aw, hp, hst⟩ must hmust
    have hav := hk.available aw hp (by rw [hst]; rfl)
    exact hr.exists_mustResume ⟨aw, hp, hst⟩ hav hmust
  · rintro ⟨aw, hp, hst⟩ res
    have hav := hk.available aw hp (by rw [hst]; rfl)
    exact hr.exists_awaitResume ⟨aw, hp, hst⟩ hav res

/-- `await_resume()` that returns. -/
theorem claims_of_awaitResume {p : ℕ} {res : Except Err V}
    (h : step cas s (.awaitResume p res) = .ok t) :
    ∃ aw, s.awaiters.lookup p = some aw ∧ claims aw.checker.state = true ∧
      unjoined aw.checker.state = false ∧ aw.checker.state ≠ .cancelled := by
  cases change_of_step h with
  | @resumes _ aw _ _ _ hp _ hc =>
    refine ⟨aw, hp, ?_⟩
    obtain ⟨att, opt, ⟨st, ex⟩⟩ := aw
    cases st <;> cases hc <;> exact ⟨rfl, rfl, by simp⟩

/-- As long as the wrapped awaiter is started or cancelled early only while the operation has not
ended and nobody relies on what it has been told: all parents that get an outcome get the same; it
is fetched at most once; a parent gets `std::nullopt` only if the operation was to be cancelled, or
had been, whenever it joined; the result is `Cancelled` only if the wrapped awaiter has confirmed
that; and otherwise a parent that had asked for its cancellation gets the outcome. -/
theorem one_outcome {l : List (State V Err × Action V Err)}
    (h : Run (step cas) Timely (.init : State V Err) l s) :
    (∀ x ∈ l, ∀ y ∈ l, ∀ r r', observes x = some r → observes y = some r' → r = r') ∧
    l.countP fetches ≤ 1 ∧
    (∀ p res t, step cas s (.awaitResume p res) = .ok t → observes (s, .awaitResume p res) = none →
      (∃ x ∈ l, joins p x = true) ∧ ∀ x ∈ l, joins p x = true → x.1.result.decided = true) ∧
    (s.result = .cancelled → ∃ x ∈ l, confirms x = true) ∧
    ∀ p u, s.isIn p .readyAfterCancel → s.result ≠ .cancelled → Reach (step cas) Timely s u →
      Receives cas u p := by
  obtain ⟨hobs, hcount⟩ := observed_of_run h
  have hj := joined_of_run h
  refine ⟨fun x hx y hy r r' hr hr' => ?_, ?_, fun p res t hstep hnone => ?_, confirms_of_run h,
    fun p u hin hcan hu => ?_⟩
  · exact (hobs x hx r hr).symm.trans (hobs y hy r' hr')
  · rcases hcount with h0 | ⟨h1, -⟩ <;> omega
  · obtain ⟨aw, hp, hcl, hun, hnc⟩ := claims_of_awaitResume hstep
    refine ⟨hj.joined p aw hp hun hnc, fun x hx hjx => ?_⟩
    by_contra hdec
    have hav := hj.claims p aw hp hcl x hx hjx (by simpa using hdec)
    cases (observes_of_available res hav).symm.trans hnone
  · exact (kept_of_reach h.reach hin hcan hu).receives (resolved_of_reach (h.reach.trans hu))

/-- The only parent is cancelled, but the operation completes; a second parent takes the result, and
the first one gets it as well. -/
def refusesAndCompletes : List (Action ℕ ℕ) :=
  [.newAwaiter false, .awaitReady 0, .awaitSuspend 0, .suspendReturns, .awaitCancel 0,
    .cancelReturns false, .resumes true, .next, .next, .becomesReady, .newAwaiter true,
    .awaitReady 1, .awaitResume 1 (.ok 7)]

theorem one_outcome_refusesAndCompletes :
    ∃ s t, exec (step false) (.init : State ℕ ℕ) refusesAndCompletes = .ok s ∧
      step false s (.awaitMustResume 0 true) = .ok t ∧ t.isIn 0 .ready := by
  have hm : Meets (step false) Timely (.init : State ℕ ℕ) refusesAndCompletes := by decide
  have hrun : ∃ s, exec (step false) (.init : State ℕ ℕ) refusesAndCompletes = .ok s ∧
      s.isIn 0 .readyAfterCancel ∧ s.result = .value 7 :=
    ⟨_, rfl, ⟨_, rfl, rfl⟩, rfl⟩
  obtain ⟨s, he, hin, hres⟩ := hrun
  have hcan : s.result ≠ .cancelled := by simp [hres]
  obtain ⟨hfirst, -⟩ := (one_outcome (run_of_exec hm he)).2.2.2.2 0 s hin hcan .refl
  obtain ⟨t, hstep, hready⟩ := hfirst rfl hin true fun _ => rfl
  exact ⟨s, t, he, hstep, hready⟩

/-- The operation completes; before the parent has taken the result, another one arrives, which
starts the wrapped awaiter again and later takes another result. -/
def startsAgain : List (Action ℕ ℕ) :=
  [.newAwaiter false, .awaitReady 0, .awaitSuspend 0, .suspendReturns, .resumes true, .next, .next,
    .newAwaiter false, .awaitReady 1, .awaitSuspend 1, .suspendReturns, .awaitResume 0 (.ok 7),
    .awaitCancel 1, .cancelReturns false, .resumes true, .next, .next, .awaitMustResume 1 true,
    .awaitResume 1 (.ok 8)]

/-- So there can be two outcomes, and `await_resume()` of the wrapped awaiter can be called twice. -/
theorem not_one_outcome :
    ∃ (l : List (State ℕ ℕ × Action ℕ ℕ)) (s : State ℕ ℕ), Run (step false) anyAction .init l s ∧
      l.countP fetches = 2 ∧
      ∃ x ∈ l, ∃ y ∈ l, observes x = some (.value 7) ∧ observes y = some (.value 8) := by
  have hrun : ∃ s, exec (step false) (.init : State ℕ ℕ) startsAgain = .ok s := ⟨_, rfl⟩
  obtain ⟨s, he⟩ := hrun
  refine ⟨_, s, run_of_exec (meets_of_forall (fun _ _ _ => trivial) _) he, by decide, ?_⟩
  have hobs : (history (step false) (.init : State ℕ ℕ) startsAgain).filterMap observes =
      [.value 7, .value 8] := by decide
  have hfirst : Result.value 7 ∈
      (history (step false) (.init : State ℕ ℕ) startsAgain).filterMap observes := by simp [hobs]
  have hsecond : Result.value 8 ∈
      (history (step false) (.init : State ℕ ℕ) startsAgain).filterMap observes := by simp [hobs]
  obtain ⟨x, hx, hxo⟩ := List.mem_filterMap.1 hfirst
  obtain ⟨y, hy, hyo⟩ := List.mem_filterMap.1 hsecond
  exact ⟨x, hx, y, hy, hxo, hyo⟩

end Corral.Shared
