import Corral.Mux.Aborting

/-!
# What a cancellation from outside comes to

* `State.outstanding`: a bound on the number of steps that are left, with those of an `await_cancel()`
  that may still be called;
* `Kept`: the storage and the error are those of the children that have a result;
* `State.awaitMustResume`: `await_must_resume()` of `MuxTuple`, `MuxRange` and `AllOf`;
* `cancelled_from_outside`: if `await_cancel()` returns true, all children are cancelled, nothing has been
  reported and the parent is never resumed; otherwise it is resumed once, when all children are terminal.
-/

namespace Corral.Mux

open ActionMachine

variable {n : ℕ} {V Err : Type*} {m : Kind n} {minReady : ℕ} {s t : State n V Err}

/-! ### The number of steps that are left -/

/-- The steps that an `await_cancel()` takes which may still be called. -/
def State.allowance (s : State n V Err) : ℕ := if s.muted = false ∧ s.returned = [] then n + 2 else 0

/-- A bound on the number of steps that are left. -/
def State.outstanding (s : State n V Err) : ℕ := s.remaining + s.allowance

theorem allowance_congr (h : t.outcome = s.outcome) : t.allowance = s.allowance := by
  have hm : t.muted = s.muted := congrArg Prod.fst h
  have hr : t.returned = s.returned := congrArg Prod.snd h
  simp only [State.allowance, hm, hr]

theorem outstanding_init : (State.init : State n V Err).outstanding = n * (n + 5) + 2 * n + 4 := by
  rw [State.outstanding, remaining_init]
  simp [State.allowance, State.init]
  omega

theorem outstanding_next (hw : Whole s) {ans : Answers V Err} (hs : s.next m minReady ans = .ok t) :
    t.outstanding < s.outstanding := by
  have hlay := hw.form.layered
  unfold State.next at hs
  unfold State.outstanding
  split at hs
  · rename_i j below hst
    have hpop := remaining_pop hst
    simp only [Frame.weight] at hpop
    split_ifs at hs with h
    · have hpend := hw.form.ahead j (by rw [hst]; exact List.mem_cons_self) ⟨j, h⟩ le_rfl
      have hle := remaining_suspend (s := { s with stack := .suspendLoop (j + 1) :: below }) hpend hs
      have hallow := allowance_congr (outcome_suspend hs)
      have hentered := remaining_enter { s with stack := below } (.suspendLoop (j + 1))
      simp only [State.enter, Frame.weight] at hentered
      simp only [State.allowance] at hallow ⊢
      omega
    · cases hs
      simp only [State.allowance]
      omega
  · rename_i cause j all below hst
    rw [hst] at hlay
    have hpop := remaining_pop hst
    simp only [Frame.weight] at hpop
    split_ifs at hs with h
    · cases hs
      have hle : ({ s with stack := below }.cancel minReady cause all ⟨j, h⟩ ans).remaining ≤
          ({ s with stack := below } : State n V Err).remaining + (n - j) :=
        remaining_cancel cause all ⟨j, h⟩ ans
      have hallow : ({ s with stack := below }.cancel minReady cause all ⟨j, h⟩ ans).allowance =
          ({ s with stack := below } : State n V Err).allowance :=
        allowance_congr (outcome_cancel cause all ⟨j, h⟩ ans)
      simp only [State.allowance] at hallow ⊢
      omega
    · obtain ⟨rfl, -⟩ := afterCancel_of_cancelled hs
      obtain ⟨rfl, -⟩ | ⟨rfl, hm, -⟩ := hlay.cause
      · obtain ⟨hac, hast, hab, ham, -⟩ := advance_frame { s with stack := below }
        obtain ⟨har, -, -⟩ := advance_rest { s with stack := below }
        have hadvance := remaining_congr hac hast hab
        have hallow := allowance_congr (Prod.ext ham har)
        show (State.advance _).remaining + (State.advance _).allowance < _
        simp only [State.allowance] at hallow ⊢
        omega
      · have hless : ({ s with stack := below }.afterCancel .awaitCancel all).remaining =
            { s with stack := below }.remaining := by
          simp only [State.afterCancel, State.resumeParent]
          split_ifs <;> rfl
        have hnone : ({ s with stack := below }.afterCancel .awaitCancel all).allowance = 0 := by
          simp only [State.afterCancel, State.resumeParent, State.allowance]
          split_ifs <;> simp_all
        omega
  · cases hs

/-- Every step lowers the bound. -/
theorem outstanding_lt (hw : Whole s) {a : Action n V Err} (hok : CancelledOnce m s a)
    (hs : step m minReady s a = .ok t) : t.outstanding < s.outstanding := by
  cases stepped_of_step hs with
  | earlyCancel => exact hok.elim
  | awaitCancel _ hm =>
    obtain ⟨hret, -⟩ := hok
    have hbefore : s.allowance = n + 2 := if_pos ⟨hm, hret⟩
    have hafter : ({ s with muted := true }.enter (.cancelLoop .awaitCancel 0 true)).allowance = 0 :=
      if_neg fun hm => by cases hm.1
    have hsame : ({ s with muted := true } : State n V Err).remaining = s.remaining := rfl
    rw [State.outstanding, State.outstanding, hbefore, hafter, remaining_enter, hsame]
    simp only [Frame.weight]
    omega
  | awaitSuspend hb =>
    have hallow : ({ s with bound := true }.enter (.suspendLoop 0)).allowance = s.allowance := rfl
    rw [State.outstanding, State.outstanding, hallow, remaining_enter]
    simp [State.remaining, Frame.weight, hb]
    omega
  | next h => exact outstanding_next hw h
  | resume _ _ h =>
    have hlt := remaining_helperInvoke h
    rw [State.outstanding, State.outstanding, allowance_congr (outcome_helperInvoke h)]
    omega
  | suspendReturns hst =>
    have hpop := remaining_pop hst
    simp only [State.outstanding, State.allowance, Frame.weight] at hpop ⊢
    omega
  | suspendThrows hst hc =>
    refine Nat.add_lt_add_of_lt_of_le (remaining_suspendThrows hst hc) ?_
    rw [allowance_congr (outcome_muxInvoke _ _ _)]
    exact le_rfl
  | cancelConfirmed hst hc =>
    refine Nat.add_lt_add_of_lt_of_le (remaining_cancelConfirmed hst hc) ?_
    rw [allowance_congr (outcome_muxInvoke _ _ _)]
    exact le_rfl
  | cancelRefused hst => exact Nat.add_lt_add_right (remaining_popCancel hst _) _

/-! ### Going on -/

/-- The call in progress goes on. -/
theorem Whole.exists_step_of_stack [Inhabited V] (minReady : ℕ) (hw : Whole s)
    (ha : m.isAbortable = true → s.muted = true → Aborting s) {f : Frame} {below : List Frame}
    (hst : s.stack = f :: below) :
    ∃ a t, CancelledOnce m s a ∧ Mux.step m minReady s a = .ok t := by
  have hlay := hw.form.layered
  rw [hst] at hlay
  cases f with
  | suspendLoop j =>
    obtain ⟨t, ht⟩ := exists_next minReady hw.form.ahead (hw.trusts ha) stubborn hst rfl
    exact ⟨.next stubborn, t, by simp [CancelledOnce, NoneSkipped, hst], ht⟩
  | cancelLoop cause j all =>
    obtain ⟨t, ht⟩ := exists_next minReady hw.form.ahead (hw.trusts ha) stubborn hst rfl
    exact ⟨.next stubborn, t, by simp [CancelledOnce, NoneSkipped, hst, stubborn], ht⟩
  | awaitSuspend j =>
    refine ⟨.suspendReturns, { s with stack := below }, trivial, ?_⟩
    simp only [Mux.step, hst]
  | awaitCancel j =>
    obtain ⟨hj, ⟨cause, k, all, below', rfl⟩, -⟩ := hlay
    by_cases habort : m.isAbortable = true ∧ s.muted = true
    · have hc : s.child ⟨j, hj⟩ = .cancelling := by
        obtain ⟨cause, k, all, hf, -⟩ | ⟨i, hf, -, hi, -⟩ := (ha habort.1 habort.2).cases_top hst
        · cases hf
        · have hji : j = i := Frame.awaitCancel.inj hf
          subst hji
          exact hi
      refine ⟨.cancelReturns true, ?_⟩
      simp only [Mux.step, State.cancelReturns, hst, dif_pos hj, if_pos hc, if_true]
      exact ⟨_, fun _ _ => rfl, rfl⟩
    · refine ⟨.cancelReturns false, ?_⟩
      simp only [Mux.step, State.cancelReturns, hst, dif_pos hj]
      exact ⟨_, fun h hm => absurd ⟨h, hm⟩ habort, rfl⟩

/-- A mux that is not over can go on, without being cancelled. -/
theorem Whole.exists_step [Inhabited V] (minReady : ℕ) (hw : Whole s)
    (ha : m.isAbortable = true → s.muted = true → Aborting s) (h : ¬ Over s) :
    ∃ a t, CancelledOnce m s a ∧ Mux.step m minReady s a = .ok t := by
  cases hst : s.stack with
  | cons f below => exact hw.exists_step_of_stack minReady ha hst
  | nil =>
    cases hb : s.bound with
    | false =>
      refine ⟨.awaitSuspend, { s with bound := true }.enter (.suspendLoop 0), trivial, ?_⟩
      simp only [Mux.step, if_pos (And.intro hb hst)]
    | true =>
      obtain ⟨j, hj⟩ : ∃ j, (s.child j).active = true := by
        by_contra hne
        exact h ⟨hb, hst, by simpa using hne⟩
      have hact : s.child j = .running ∨ s.child j = .cancelling := by
        cases hc : s.child j <;> simp_all [HelperState.active]
      obtain ⟨t, ht⟩ := exists_helperInvoke minReady stubborn hact
      have hm : s.muted = false := by
        have hlay := hw.form.layered
        rwa [hst] at hlay
      refine ⟨.resume j stubborn, t, fun _ => hm, ?_⟩
      simp only [Mux.step, hst]
      rw [if_pos ⟨rfl, hact⟩]
      exact ht

theorem Whole.terminal_of_over (hw : Whole s) (h : Over s) (j : Fin n) :
    (s.child j).terminal = true := by
  have hready := hw.form.unready j
  have hact := h.children j
  have hp : (s.child j).pending = false := by
    by_contra hp
    obtain ⟨k, hk, -⟩ := hw.form.behind j (by simpa using hp) h.bound
    rw [h.stack] at hk
    cases hk
  cases hc : s.child j <;> simp_all [HelperState.pending, HelperState.active, HelperState.terminal]

/-- A mux that is over has resumed its parent, unless its cancellation has been confirmed. -/
theorem Whole.resumed_of_over (hw : Whole s) (h : Over s) :
    s.resumed.length = if s.returned = [(.awaitCancel, true)] then 0 else 1 := by
  have hm : s.muted = false := by
    have hlay := hw.form.layered
    rwa [h.stack] at hlay
  have hcount : s.count = n := by
    have hc := hw.account.counted
    rw [h.stack, nTerminal, Finset.filter_true_of_mem fun j _ => hw.terminal_of_over h j,
      Finset.card_univ, Fintype.card_fin] at hc
    exact hc
  have hsilent : s.silent = false ↔ ¬ s.returned = [(.awaitCancel, true)] := by
    simp only [State.silent, hm, Bool.false_or, decide_eq_false_iff_not]
    exact not_congr ⟨fun h => (hw.outside.confirmed h).1, fun h => h ▸ List.mem_singleton.2 rfl⟩
  rw [hw.account.resumed]
  by_cases hret : s.returned = [(.awaitCancel, true)]
  · rw [if_pos hret, if_neg fun h => hsilent.1 h.2 hret]
  · rw [if_neg hret, if_pos ⟨hcount, hsilent.2 hret⟩]

/-- The parent has been resumed, so all children are terminal. -/
theorem Whole.terminal_of_resumed (hw : Whole s) (h : s.resumed ≠ []) (j : Fin n) :
    (s.child j).terminal = true := by
  have hcount : s.count = n := by
    by_contra hne
    have hr := hw.account.resumed
    rw [if_neg fun h => hne h.1, List.length_eq_zero_iff] at hr
    exact h hr
  have hc := hw.account.counted
  have hle := nTerminal_le s.child
  exact terminal_of_nTerminal_eq (by omega) j

/-! ### Values and errors -/

/-- The storage and the error are those of the children that have a result. -/
structure Kept (s : State n V Err) : Prop where
  storage : ∀ j, (s.storage j).isSome = true ↔ s.child j = .succeeded
  error : s.error.isSome = true ↔ ∃ j, s.child j = .failed

theorem kept_init : Kept (State.init : State n V Err) := by
  constructor <;> simp [State.init]

theorem Kept.congr (hk : Kept s) (hc : t.child = s.child) (hs : t.storage = s.storage)
    (he : t.error = s.error) : Kept t := by
  obtain ⟨h₁, h₂⟩ := hk
  constructor
  · rwa [hc, hs]
  · rwa [hc, he]

/-- `MuxBase::invoke()` keeps the first error. -/
theorem Kept.muxInvoke {j : Fin n} {err : Option Err}
    (hs : ∀ i, (s.storage i).isSome = true ↔ s.child i = .succeeded)
    (he : (s.error.isSome = true ∨ err.isSome = true) ↔ ∃ i, s.child i = .failed) :
    Kept (s.muxInvoke minReady j err) := by
  have hnoted : Kept (s.noted j err) := by
    refine ⟨hs, ?_⟩
    show (if err.isSome && s.error.isNone then err else s.error).isSome = true ↔ ∃ i, s.child i = .failed
    rw [← he]
    cases err <;> cases s.error <;> simp
  obtain hu | hu := muxInvoke_noted minReady s j err
  · obtain ⟨hac, -⟩ := advance_frame (s.noted j err)
    obtain ⟨-, has, hae⟩ := advance_rest (s.noted j err)
    rw [hu]
    exact hnoted.congr hac has hae
  · rw [hu]
    exact hnoted.congr rfl rfl rfl

/-- A child that is not done changes its state. -/
theorem update_eq_iff {c : Fin n → HelperState} {j : Fin n} (hj : (c j).terminal = false)
    {st x : HelperState} (hx : x.terminal = true) (hst : st ≠ x) (i : Fin n) :
    Function.update c j st i = x ↔ c i = x := by
  by_cases h : i = j
  · subst h
    rw [Function.update_self]
    refine iff_of_false hst ?_
    rintro rfl
    rw [hj] at hx
    cases hx
  · rw [Function.update_of_ne h]

theorem Kept.update (hk : Kept s) {j : Fin n} (hj : (s.child j).terminal = false) {st : HelperState}
    (hst : st.answered = false) (stack : List Frame) :
    Kept { s with child := Function.update s.child j st, stack := stack } := by
  have hsucceeded : st ≠ .succeeded := by
    rintro rfl
    cases hst
  have hfailed : st ≠ .failed := by
    rintro rfl
    cases hst
  constructor
  · intro i
    exact (hk.storage i).trans (update_eq_iff hj rfl hsucceeded i).symm
  · exact hk.error.trans (exists_congr fun i => (update_eq_iff hj rfl hfailed i).symm)

theorem Kept.complete (hk : Kept s) {j : Fin n} (hj : (s.child j).terminal = false) {st : HelperState}
    {storage : Fin n → Option V} {err : Option Err} (hres : Result s j st storage err)
    (stack : List Frame) : Kept (({ s with
      child := Function.update s.child j st, stack := stack, storage := storage } :
      State n V Err).muxInvoke minReady j err) := by
  cases hres with
  | value v =>
    refine Kept.muxInvoke (fun i => ?_) ?_
    · show (Function.update s.storage j (some v) i).isSome = true ↔ Function.update s.child j .succeeded i = _
      by_cases h : i = j
      · subst h
        simp
      · rw [Function.update_of_ne h, Function.update_of_ne h]
        exact hk.storage i
    · show (s.error.isSome = true ∨ _) ↔ ∃ i, Function.update s.child j .succeeded i = .failed
      rw [or_iff_left (by simp)]
      exact hk.error.trans (exists_congr fun i => (update_eq_iff hj rfl HelperState.noConfusion i).symm)
  | error err =>
    refine Kept.muxInvoke (fun i => ?_) ?_
    · exact (hk.storage i).trans (update_eq_iff hj rfl HelperState.noConfusion i).symm
    · exact iff_of_true (.inr rfl) ⟨j, Function.update_self _ _ _⟩
  | cancelled h =>
    have hset : Kept { s with child := Function.update s.child j .cancelled, stack := stack } :=
      hk.update hj rfl stack
    obtain ⟨hs, he⟩ := hset
    exact Kept.muxInvoke hs (by rwa [or_iff_left (by simp)])

theorem Kept.helperInvoke (hk : Kept s) {j : Fin n} {ans : Answers V Err}
    (hs : s.helperInvoke minReady j ans = .ok t) : Kept t := by
  obtain ⟨-, hj, st, storage, err, hres, rfl⟩ := helperInvoke_result hs
  exact hk.complete hj hres s.stack

theorem Kept.suspend (hk : Kept s) {j : Fin n} {ans : Answers V Err}
    (hs : s.suspend minReady j ans = .ok t) : Kept t := by
  by_cases hc : s.child j = .cancelled
  · simp only [State.suspend, hc] at hs
    cases hs
    refine Kept.muxInvoke hk.storage ?_
    rw [or_iff_left (by simp)]
    exact hk.error
  · have hj : (s.child j).terminal = false := by
      unfold State.suspend at hs
      cases h : s.child j <;> simp_all [HelperState.terminal]
    obtain ⟨st, hact, hcase⟩ | ⟨hc', -⟩ := suspend_cases hs
    · have hst : st.answered = false := by
        cases st <;> first | rfl | cases hact
      have hset : Kept (s.setState j st) := hk.update hj hst s.stack
      obtain hinvoke | rfl := hcase
      · exact hset.helperInvoke hinvoke
      · exact hset.congr rfl rfl rfl
    · exact absurd hc' hc

theorem Kept.cancel (hk : Kept s) (cause : Cause) (all : Bool) (j : Fin n) (ans : Answers V Err) :
    Kept (s.cancel minReady cause all j ans) := by
  have hset : ∀ (st : HelperState) (stack : List Frame), st.answered = false →
      (s.child j).terminal = false →
      Kept { s with child := Function.update s.child j st, stack := stack } :=
    fun st stack hst hj => hk.update hj hst stack
  simp only [State.cancel]
  split
  · rename_i hc
    have hj : (s.child j).terminal = false := by
      rw [hc]
      rfl
    split_ifs
    · obtain ⟨hs, he⟩ := hset .cancelled (.cancelLoop cause (j + 1) (all && true) :: s.stack) rfl hj
      exact Kept.muxInvoke hs (by rwa [or_iff_left (by simp)])
    · exact hset _ _ rfl hj
    · exact hset _ _ rfl hj
  · rename_i hc
    have hj : (s.child j).terminal = false := by
      rw [hc]
      rfl
    exact hset _ (.awaitCancel j :: .cancelLoop cause (j + 1) (all && true) :: s.stack) rfl hj
  · exact hk.congr rfl rfl rfl
  · exact hk.congr rfl rfl rfl

theorem Kept.afterCancel (hk : Kept s) (cause : Cause) (all : Bool) : Kept (s.afterCancel cause all) := by
  apply hk.congr
  all_goals
    unfold State.afterCancel State.resumeParent
    cases cause
    · simp only
      split_ifs <;> rfl
    · rfl
    · simp only
      split_ifs <;> rfl

theorem Kept.next (hk : Kept s) {ans : Answers V Err} (hs : s.next m minReady ans = .ok t) : Kept t := by
  unfold State.next at hs
  split at hs
  · rename_i j below hst
    split_ifs at hs
    · exact Kept.suspend (s := { s with stack := .suspendLoop (j + 1) :: below }) (hk.congr rfl rfl rfl) hs
    · cases hs
      exact hk.congr rfl rfl rfl
  · rename_i cause j all below hst
    have hpop : Kept { s with stack := below } := hk.congr rfl rfl rfl
    split_ifs at hs
    · cases hs
      exact hpop.cancel cause all _ ans
    · obtain ⟨rfl, -⟩ := afterCancel_of_cancelled hs
      exact hpop.afterCancel cause all
  · cases hs

theorem Kept.step (hk : Kept s) {a : Action n V Err} (hs : Mux.step m minReady s a = .ok t) : Kept t := by
  cases stepped_of_step hs with
  | earlyCancel | awaitSuspend | awaitCancel | suspendReturns | cancelRefused => exact hk.congr rfl rfl rfl
  | next h => exact hk.next h
  | resume _ _ h => exact hk.helperInvoke h
  | @suspendThrows j below err hst hc =>
    refine hk.complete ?_ (.error err) below
    obtain hc | hc := hc <;> rw [hc] <;> rfl
  | cancelConfirmed hst hc =>
    refine hk.complete ?_ (.cancelled hc) _
    rw [hc]
    rfl

/-- In every reachable state, whether the mux is cancelled or not. -/
theorem kept_of_reach (hr : Reach (step m minReady) anyAction (.init : State n V Err) s) : Kept s :=
  hr.invariant kept_init fun _ _ _ hk _ hs => hk.step hs

/-! ### `await_must_resume()` -/

/-- `MuxHelper::mustResume()`: what it returns, if no assertion fails, where `must` is what
`await_must_resume()` of the awaiter answers. -/
def HelperState.mustResume (must : Bool) : HelperState → Option Bool
  | .notStarted => some true
  | .cancellationPending => some must
  | .cancelled => some false
  | .ready => some true
  | .succeeded => some true
  | .failed => some true
  | .running => none
  | .cancelling => none

/-- A child whose early cancellation was refused is asked. -/
def State.askAll (s : State n V Err) (must : Fin n → Bool) : State n V Err :=
  { s with child := fun j =>
      if s.child j = .cancellationPending then (if must j then .ready else .cancelled) else s.child j }

/-- `await_must_resume()` is `std::false_type`: the mux is `Skippable` and `Abortable`, and not an
`AllOfRange`. -/
def Kind.neverMustResume (m : Kind n) (allOf range : Bool) : Bool :=
  m.isSkippable && m.isAbortable && !(allOf && range)

/-- `await_must_resume()` of `MuxTuple` and `MuxRange`, and of `AllOf` and `AllOfRange`.  Only a tuple asks
no child if there is an error. -/
def State.awaitMustResume (m : Kind n) (s : State n V Err) (allOf range : Bool) (must : Fin n → Bool) :
    Except Fault (Bool × State n V Err) :=
  let hasError := allOf && s.error.isSome
  let never := m.neverMustResume allOf range
  if hasError && !range then
    if never then .error .assertion else .ok (true, s)
  else if ∃ j, (s.child j).mustResume (must j) = none then .error .assertion
  else
    let answer : Bool :=
      if allOf then hasError || decide (0 < n ∧ ∀ j, (s.child j).mustResume (must j) = some true)
      else decide (∃ j, (s.child j).mustResume (must j) = some true)
    if answer && never then .error .assertion else .ok (answer, s.askAll must)

theorem HelperState.mustResume_of_terminal {st : HelperState} (h : st.terminal = true) (must : Bool) :
    st.mustResume must = some st.answered := by
  cases st <;> first | rfl | cases h

/-- Once all children are terminal, no child is asked, and the answer is whether there is something to
report. -/
theorem Kept.awaitMustResume (hk : Kept s) (hn : 0 < n) (hall : ∀ j, (s.child j).terminal = true)
    (allOf range : Bool) (hnever : m.neverMustResume allOf range = false) (must : Fin n → Bool) :
    ∃ answer, s.awaitMustResume m allOf range must = .ok (answer, s) ∧
      (answer = true ↔ if allOf then (∃ j, s.child j = .failed) ∨ ∀ j, s.child j = .succeeded
        else ∃ j, s.child j = .succeeded ∨ s.child j = .failed) := by
  have hsame : s.askAll must = s := by
    have hchild : (s.askAll must).child = s.child := by
      funext j
      refine if_neg fun hc => ?_
      have hj := hall j
      rw [hc] at hj
      cases hj
    exact congrArg (fun c => { s with child := c }) hchild
  have hasked : ¬ ∃ j, (s.child j).mustResume (must j) = none := by
    rintro ⟨j, hj⟩
    rw [HelperState.mustResume_of_terminal (hall j)] at hj
    cases hj
  have hanswered : ∀ j, (s.child j).mustResume (must j) = some true ↔
      s.child j = .succeeded ∨ s.child j = .failed := by
    intro j
    rw [HelperState.mustResume_of_terminal (hall j), Option.some.injEq]
    cases s.child j <;> simp [HelperState.answered]
  simp only [State.awaitMustResume, if_neg hasked, hsame, hanswered, hnever, Bool.and_false,
    Bool.false_eq_true, if_false]
  cases allOf with
  | false =>
    refine ⟨decide (∃ j, s.child j = .succeeded ∨ s.child j = .failed), ?_, by simp⟩
    simp
  | true =>
    by_cases he : s.error.isSome = true
    · have hfailed := hk.error.1 he
      refine ⟨true, ?_, by simp [hfailed]⟩
      cases range <;> simp [he]
    · have hfailed : ∀ j, s.child j ≠ .failed := fun j hj => he (hk.error.2 ⟨j, hj⟩)
      refine ⟨decide (∀ j, s.child j = .succeeded), ?_, by simp [hfailed]⟩
      simp [he, hfailed, hn]

/-! ### The result -/

/-- In every run of a mux over at least one child in which `await_cancel()` is called at most once, after
`await_suspend()` has returned and before the parent is resumed, and no child that has not been started
agrees to being cancelled early by the mux; and in which an `Abortable` mux is only cancelled while all its
children are running, and then each of them confirms:

* every child is counted once, when it becomes terminal;
* the parent is resumed at most once, and at that moment all children are terminal;
* once `await_cancel()` has returned true, all children are cancelled, no child has reported a value or an
  error, and the parent has not been resumed;
* once the parent is resumed, `await_must_resume()` asks no child, and it is true just if a child has a
  result, or for `allOf()` just if a child has failed or all have succeeded, unless the mux is `Skippable`
  and `Abortable`;
* `await_cancel()` of an `Abortable` mux has never returned false;
* no assertion fails, and the run goes on until the mux is over;
* then the parent has been resumed, unless `await_cancel()` has returned true;
* and the run has a bounded number of steps. -/
theorem cancelled_from_outside [Inhabited V] (hn : 0 < n) {as : List (Action n V Err)}
    (hm : Meets (step m minReady) (CancelledOnce m) .init as) (he : exec (step m minReady) .init as = .ok s) :
    (∀ j, s.invoked j = if (s.child j).terminal then 1 else 0) ∧
    s.resumed.length ≤ 1 ∧ (∀ c ∈ s.resumed, ∀ j, (c j).terminal = true) ∧
    (s.returned = [(.awaitCancel, true)] →
      (∀ j, s.child j = .cancelled ∧ s.storage j = none) ∧ s.error = none ∧ s.resumed = []) ∧
    (s.resumed ≠ [] → ∀ allOf range, m.neverMustResume allOf range = false → ∀ must, ∃ answer,
      s.awaitMustResume m allOf range must = .ok (answer, s) ∧
      (answer = true ↔ if allOf then (∃ j, s.child j = .failed) ∨ ∀ j, s.child j = .succeeded
        else ∃ j, s.child j = .succeeded ∨ s.child j = .failed)) ∧
    (m.isAbortable = true → ∀ r ∈ s.returned, r = (.awaitCancel, true)) ∧
    (∀ a, step m minReady s a ≠ .error .assertion) ∧
    (¬ Over s → ∃ a t, CancelledOnce m s a ∧ step m minReady s a = .ok t) ∧
    (Over s → (∀ j, (s.child j).terminal = true) ∧
      s.resumed.length = if s.returned = [(.awaitCancel, true)] then 0 else 1) ∧
    as.length ≤ n * (n + 5) + 2 * n + 4 := by
  have hr := reach_of_exec hm he
  have hw : Whole s := whole_of_reach hn hr
  have hk : Kept s := kept_of_reach (hr.mono fun _ _ _ => trivial)
  have ha := aborting_of_reach hn hr
  refine ⟨hw.invoked, ?_, hw.account.snapshots, fun hret => ?_, fun hres => ?_, returned_of_reach hn hr,
    step_ne_assertion_of_ahead hw.form.ahead (hw.trusts ha), hw.exists_step minReady ha,
    fun h => ⟨hw.terminal_of_over h, hw.resumed_of_over h⟩, ?_⟩
  · rw [hw.account.resumed]
    split_ifs <;> omega
  · have hmem : (.awaitCancel, true) ∈ s.returned := hret ▸ List.mem_singleton.2 rfl
    have hall := (hw.outside.confirmed hmem).2.2
    refine ⟨fun j => ⟨hall j, ?_⟩, ?_, ?_⟩
    · rw [← Option.not_isSome_iff_eq_none, hk.storage j, hall j]
      exact HelperState.noConfusion
    · rw [← Option.not_isSome_iff_eq_none, hk.error]
      rintro ⟨j, hj⟩
      rw [hall j] at hj
      cases hj
    · have hlen := hw.account.resumed
      rwa [if_neg fun h => by simp [State.silent, hmem] at h, List.length_eq_zero_iff] at hlen
  · exact fun allOf range hnever must =>
      hk.awaitMustResume hn (hw.terminal_of_resumed hres) allOf range hnever must
  · have hlen := length_add_le_of_lt hm he (whole_init hn)
      (fun _ _ _ hw hok hs => hw.step hok hs) fun _ _ _ hw hok hs => outstanding_lt hw hok hs
    rw [outstanding_init] at hlen
    omega

/-- An awaiter that has completed in spite of its cancellation. -/
def completed (v : ℕ) : Answers ℕ ℕ := ⟨false, false, true, .ok v⟩

/-- `allOf()` over children of which nothing is known. -/
def allOfKind (n : ℕ) : Kind n := ⟨false, fun _ => false, fun _ => false⟩

/-- `allOf()` over two children, cancelled from outside when both are suspended: the first one is cancelled
at once, the second one not; and later it turns out to have completed. -/
def cancelledLate : List (Action 2 ℕ ℕ) :=
  [.awaitSuspend, .next (notReady false), .suspendReturns, .next (notReady false), .suspendReturns,
    .next (notReady false), .awaitCancel, .next (notReady false), .cancelReturns true,
    .next (notReady false), .cancelReturns false, .next (notReady false),
    .resume (Fin.last 1) (completed 7)]

theorem exec_cancelledLate :
    ∃ s, exec (step (allOfKind 2) 2) (.init : State 2 ℕ ℕ) cancelledLate = .ok s ∧
      s.returned = [(.awaitCancel, false)] ∧ s.bound = true ∧ s.stack = [] ∧
      ∀ j, s.child j = if j = Fin.last 1 then .succeeded else .cancelled :=
  ⟨_, rfl, rfl, rfl, rfl, by decide⟩

/-- The parent is resumed, and need not see the result of the second child. -/
theorem cancelled_from_outside_cancelledLate :
    ∃ s, exec (step (allOfKind 2) 2) (.init : State 2 ℕ ℕ) cancelledLate = .ok s ∧
      s.returned = [(.awaitCancel, false)] ∧ s.resumed.length = 1 ∧
      s.awaitMustResume (allOfKind 2) true false (fun _ => true) = .ok (false, s) := by
  have hm : Meets (step (allOfKind 2) 2) (CancelledOnce (allOfKind 2)) (.init : State 2 ℕ ℕ) cancelledLate := by decide
  obtain ⟨s, he, hret, hb, hst, hchild⟩ := exec_cancelledLate
  obtain ⟨-, -, -, -, hmust, -, -, -, hover, -⟩ := cancelled_from_outside (by decide) hm he
  have hactive : ∀ j, (s.child j).active = false := by
    intro j
    rw [hchild j]
    split_ifs <;> rfl
  have hlen : s.resumed.length = 1 := by
    rw [(hover ⟨hb, hst, hactive⟩).2, hret]
    rfl
  have hne : s.resumed ≠ [] := by
    intro h
    rw [h] at hlen
    cases hlen
  obtain ⟨answer, hask, hiff⟩ := hmust hne true false rfl fun _ => true
  have hanswer : answer = false := by
    rw [← Bool.not_eq_true, hiff]
    rintro (⟨j, hj⟩ | hall)
    · rw [hchild j] at hj
      split_ifs at hj
    · have hfirst := hall (Fin.castSucc (Fin.last 0))
      rw [hchild, if_neg (by decide)] at hfirst
      cases hfirst
  rw [hanswer] at hask
  exact ⟨s, he, hret, hlen, hask⟩

end Corral.Mux
