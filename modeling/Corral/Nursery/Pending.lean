import Corral.Nursery.Steps

/-!
# `pendingTaskCount_` counts the pending starts

`NurseryStartAwaiter` counts itself in when it has a promise, and off when it hands the promise over
or the promise is done.  It tells by `nursery_` that it has not been counted off yet, but `nursery_`
is also set before it is counted in.

* `Starter.pending`: the start awaiters that are counted;
* `Serves`: some promise, or a `continuation()` about to be executed, reports to the start awaiter;
* `Census`: the counter is right, and nothing reports to a start awaiter before it is counted in;
* `pendingTaskCount_eq`: so the counter is right in every state of every run, and is never counted
  down from zero.
-/

namespace Corral.Nursery

open ActionMachine Registry

variable {Err : Type*} {s t u : State Err}

/-- It has a promise that has neither been handed over nor is done. -/
def Starter.pending (st : Starter Err) : Bool := st.nursery && st.promise.isSome

/-- Some promise, or a `continuation()` about to be executed, reports to the start awaiter `a`. -/
def Serves (s : State Err) (a : ℕ) : Prop :=
  (∃ p pr, s.promises.lookup p = some pr ∧ pr.parent = some (.starter a)) ∨
  ∃ q, Frame.continuation (.starter a) q ∈ s.stack

/-- The counter is right, and who is reported to has been counted in. -/
structure Census (s : State Err) : Prop where
  counted : s.pendingTaskCount = count Starter.pending s.starters
  fresh : ∀ a st, s.starters.lookup a = some st → a < s.nextId
  served : ∀ a, Serves s a → a < s.nextId ∧
    ∀ st, s.starters.lookup a = some st → st.nursery = true → st.promise.isSome = true

theorem census_init (kind : Kind) : Census (State.init kind : State Err) := by
  refine ⟨rfl, fun a st h => ?_, fun a h => ?_⟩
  · cases h
  · rcases h with ⟨p, pr, h, -⟩ | ⟨q, h⟩ <;> cases h

/-! ### Steps that leave the start awaiters as they are -/

/-- No start awaiter comes, goes, or changes what it is counted by, and none is reported to that was
not reported to before. -/
structure Calm (s t : State Err) : Prop where
  pending : t.pendingTaskCount = s.pendingTaskCount
  nextId : s.nextId ≤ t.nextId
  count : count Starter.pending t.starters = count Starter.pending s.starters
  same : ∀ a st, t.starters.lookup a = some st → ∃ st', s.starters.lookup a = some st' ∧
    st'.nursery = st.nursery ∧ st'.promise = st.promise
  serves : ∀ a, Serves t a → Serves s a

theorem Calm.refl (s : State Err) : Calm s s :=
  ⟨rfl, le_rfl, rfl, fun _ st h => ⟨st, h, rfl, rfl⟩, fun _ h => h⟩

theorem Calm.trans (h₁ : Calm s t) (h₂ : Calm t u) : Calm s u := by
  refine ⟨h₂.pending.trans h₁.pending, h₁.nextId.trans h₂.nextId, h₂.count.trans h₁.count,
    fun a st h => ?_, fun a h => h₁.serves a (h₂.serves a h)⟩
  obtain ⟨st', h', hn, hp⟩ := h₂.same a st h
  obtain ⟨st'', h'', hn', hp'⟩ := h₁.same a st' h'
  exact ⟨st'', h'', hn'.trans hn, hp'.trans hp⟩

theorem Census.calm (hc : Census s) (h : Calm s t) : Census t := by
  refine ⟨?_, fun a st ha => ?_, fun a ha => ?_⟩
  · rw [h.pending, h.count, hc.counted]
  · obtain ⟨st', ha', -, -⟩ := h.same a st ha
    exact (hc.fresh a st' ha').trans_le h.nextId
  · obtain ⟨hlt, hpend⟩ := hc.served a (h.serves a ha)
    refine ⟨hlt.trans_le h.nextId, fun st hst hn => ?_⟩
    obtain ⟨st', hst', hn', hp'⟩ := h.same a st hst
    rw [← hp']
    exact hpend st' hst' (hn'.trans hn)

/-- The start awaiters are not touched. -/
theorem calm_of_starters_eq (hp : t.pendingTaskCount = s.pendingTaskCount)
    (hn : s.nextId ≤ t.nextId) (hst : t.starters = s.starters)
    (hs : ∀ a, Serves t a → Serves s a) : Calm s t :=
  ⟨hp, hn, by rw [hst], fun _ st h => ⟨st, hst ▸ h, rfl, rfl⟩, hs⟩

/-- Neither are the promises, and there may be more calls in progress. -/
theorem calm_of_stack_eq (fs : List Frame) (hp : t.pendingTaskCount = s.pendingTaskCount)
    (hn : s.nextId ≤ t.nextId) (hst : t.starters = s.starters) (hpr : t.promises = s.promises)
    (hstack : t.stack = fs ++ s.stack)
    (hfs : ∀ a q, Frame.continuation (.starter a) q ∈ fs → Serves s a) : Calm s t := by
  refine calm_of_starters_eq hp hn hst fun a ha => ?_
  rcases ha with ⟨p, pr, h, hpar⟩ | ⟨q, h⟩
  · exact Or.inl ⟨p, pr, hpr ▸ h, hpar⟩
  · rw [hstack, List.mem_append] at h
    rcases h with h | h
    · exact hfs a q h
    · exact Or.inr ⟨q, h⟩

theorem calm_enter (s : State Err) {f : Frame} (hf : ∀ a q, f ≠ .continuation (.starter a) q) :
    Calm s (s.enter f) := by
  refine calm_of_stack_eq [f] rfl le_rfl rfl rfl rfl fun a q h => ?_
  exact absurd (List.mem_singleton.1 h).symm (hf a q)

theorem calm_pop {f : Frame} {below : List Frame} (hst : s.stack = f :: below) :
    Calm s { s with stack := below } := by
  refine calm_of_starters_eq rfl le_rfl rfl fun a ha => ?_
  rcases ha with ha | ⟨q, ha⟩
  · exact Or.inl ha
  · exact Or.inr ⟨q, by rw [hst]; exact List.mem_cons_of_mem _ ha⟩

theorem calm_setPromise {p : ℕ} {pr : Promise}
    (hp : ∀ a, pr.parent = some (.starter a) → Serves s a) : Calm s (s.setPromise p pr) := by
  refine calm_of_starters_eq rfl le_rfl rfl fun a ha => ?_
  rcases ha with ⟨p', pr', h, hpar⟩ | h
  · simp only [State.setPromise, lookup_insert_eq] at h
    split_ifs at h
    · cases h
      exact hp a hpar
    · exact Or.inl ⟨p', pr', h, hpar⟩
  · exact Or.inr h

theorem calm_setStarter {a : ℕ} {st st' : Starter Err} (ha : s.starters.lookup a = some st)
    (hn : st'.nursery = st.nursery) (hp : st'.promise = st.promise) :
    Calm s (s.setStarter a st') := by
  refine ⟨rfl, le_rfl, ?_, fun b st'' h => ?_, fun _ h => h⟩
  · have hcount := count_insert Starter.pending st' ha
    have hpend : st'.pending = st.pending := by rw [Starter.pending, hn, hp]; rfl
    rw [hpend] at hcount
    exact Nat.add_right_cancel hcount
  · simp only [State.setStarter, lookup_insert_eq] at h
    split_ifs at h with hb
    · cases h
      subst hb
      exact ⟨st, ha, hn.symm, hp.symm⟩
    · exact ⟨st'', h, rfl, rfl⟩

/-! ### `BasePromise` -/

theorem calm_doResume {p : ℕ} {pr : Promise}
    (hp : ∀ a, pr.parent = some (.starter a) → Serves s a) : Calm s (s.doResume p pr) := by
  have hset : Calm s (s.setPromise p { pr with status := .ready, onResume := .doNothing }) :=
    calm_setPromise hp
  exact hset.trans (calm_of_stack_eq [] rfl le_rfl rfl rfl rfl fun _ _ h => by cases h)

theorem calm_cancelPromise {p : ℕ} (h : s.cancelPromise p = .ok t) : Calm s t := by
  unfold State.cancelPromise at h
  split at h
  · cases h
  · rename_i pr hpr
    have hserves : ∀ a, pr.parent = some (.starter a) → Serves s a :=
      fun a ha => Or.inl ⟨p, pr, hpr, ha⟩
    split_ifs at h
    · cases h
      refine (calm_setPromise ?_).trans (calm_enter _ fun _ _ => Frame.noConfusion)
      exact hserves
    · cases h
      refine calm_setPromise ?_
      exact hserves

theorem calm_cancelled (s : State Err) (par : Parent) : Calm s (s.cancelled par) := by
  unfold State.cancelled
  split
  · split
    · rename_i hst
      exact calm_setStarter hst rfl rfl
    · exact Calm.refl s
  · exact Calm.refl s

/-- The promise lets go of its parent, whose `continuation()` is executed next. -/
theorem calm_detach {p : ℕ} {pr pr' : Promise} {par : Parent} {q : Option ℕ}
    (hs : ∀ a, pr.parent = some (.starter a) → Serves s a) (hpar : pr.parent = some par)
    (hnone : pr'.parent = none) :
    Calm s ((s.setPromise p pr').enter (.continuation par q)) := by
  refine calm_of_starters_eq rfl le_rfl rfl fun a ha => ?_
  rcases ha with ⟨p', pr'', h, hpar'⟩ | ⟨q', h⟩
  · simp only [State.enter, State.setPromise, lookup_insert_eq] at h
    split_ifs at h
    · cases h
      rw [hnone] at hpar'
      cases hpar'
    · exact Or.inl ⟨p', pr'', h, hpar'⟩
  · rcases List.mem_cons.1 h with h | h
    · cases h
      exact hs a hpar
    · exact Or.inr ⟨q', h⟩

theorem cancelled_enter (s : State Err) (par : Parent) (f : Frame) :
    (s.enter f).cancelled par = (s.cancelled par).enter f := by
  cases par with
  | starter a =>
    simp only [State.cancelled, State.enter]
    split <;> rfl
  | nursery | scope => rfl

theorem calm_propagateCancel {p : ℕ} {pr : Promise}
    (hs : ∀ a, pr.parent = some (.starter a) → Serves s a) (h : s.propagateCancel p pr = .ok t) :
    Calm s t := by
  unfold State.propagateCancel at h
  split at h
  · cases h
  · rename_i par hpar
    cases h
    rw [← cancelled_enter]
    exact (calm_detach hs hpar rfl).trans (calm_cancelled _ par)

theorem calm_doResumeAfterCancel {p : ℕ} {pr : Promise} {mustResume : Bool}
    (hs : ∀ a, pr.parent = some (.starter a) → Serves s a)
    (h : s.doResumeAfterCancel p pr mustResume = .ok t) : Calm s t := by
  unfold State.doResumeAfterCancel at h
  split_ifs at h
  · cases h
    refine calm_doResume ?_
    exact hs
  · exact calm_propagateCancel hs h

theorem calm_hookAwaitSuspend {p : ℕ} {pr : Promise} {ans : Answers}
    (hs : ∀ a, pr.parent = some (.starter a) → Serves s a)
    (h : s.hookAwaitSuspend p pr ans = .ok t) : Calm s t := by
  unfold State.hookAwaitSuspend at h
  simp only at h
  split_ifs at h
  · refine calm_propagateCancel ?_ h
    exact hs
  · refine calm_doResumeAfterCancel ?_ h
    exact hs
  · cases h
    refine calm_setPromise ?_
    exact hs
  · cases h
    refine calm_setPromise ?_
    exact hs

/-- Erasing a record takes nothing but what reported through it. -/
theorem calm_destroy (s : State Err) (p : ℕ) : Calm s (s.destroy p) := by
  refine calm_of_starters_eq rfl le_rfl rfl fun a ha => ?_
  rcases ha with ⟨p', pr, h, hpar⟩ | h
  · exact Or.inl ⟨p', pr, lookup_of_lookup_erase h, hpar⟩
  · exact Or.inr h

/-! ### `NurseryBase` -/

theorem calm_doCancel (s : State Err) : Calm s s.doCancel := by
  unfold State.doCancel
  split_ifs
  · exact Calm.refl s
  · exact calm_of_stack_eq [.runSoon false] rfl le_rfl rfl rfl rfl (by simp)

theorem calm_cancel (s : State Err) : Calm s s.cancel := by
  unfold State.cancel
  split_ifs
  · exact Calm.refl s
  · have hset : Calm s { s with cancelling := true } :=
      calm_of_stack_eq [] rfl le_rfl rfl rfl rfl (by simp)
    exact hset.trans (calm_doCancel _)

theorem calm_storeError {err : Err} (h : s.storeError err = .ok t) : Calm s t := by
  have hset : ∀ e : Option Err, Calm s { s with error := e, cancelling := true } :=
    fun e => calm_of_stack_eq [] rfl le_rfl rfl rfl rfl (by simp)
  unfold State.storeError at h
  split at h
  · cases h
  · cases h
    by_cases hc : s.cancelling = true
    · rw [if_pos hc]
      exact hset _
    · rw [if_neg hc]
      exact (hset _).trans (calm_doCancel _)

theorem calm_adopt {p : ℕ} {par : Parent} (h : s.adopt p par = .ok t) : Calm s t := by
  have henter : Calm s (s.enter (.adopt p par)) := calm_enter s fun _ _ => Frame.noConfusion
  unfold State.adopt at h
  split_ifs at h
  · exact henter.trans (calm_cancelPromise h)
  · cases h
    exact henter

theorem calm_addPromise {par : Parent} (h : s.addPromise par = .ok t) : Calm s t := by
  refine Calm.trans ?_ (calm_adopt h)
  refine calm_of_starters_eq rfl (Nat.le_succ _) rfl fun a ha => ?_
  rcases ha with ⟨p', pr, hp, hpar⟩ | hst
  · simp only [lookup_insert_eq] at hp
    split_ifs at hp
    · cases hp
      cases hpar
    · exact Or.inl ⟨p', pr, hp, hpar⟩
  · exact Or.inr hst

theorem calm_adopted {p : ℕ} {par : Parent} (h : s.adopted p par = .ok t) : Calm s t := by
  unfold State.adopted at h
  split at h
  · cases h
  · have hlinked : ∀ l n, Calm s { s with tasks := l, taskCount := n } :=
      fun l n => calm_of_stack_eq [] rfl le_rfl rfl rfl rfl (by simp)
    split at h
    · split at h
      · rename_i hst
        cases h
        exact (hlinked _ _).trans (calm_setStarter hst rfl rfl)
      · cases h
    · rename_i hpar
      cases h
      refine (hlinked _ _).trans (calm_doResume fun a ha => ?_)
      exact absurd (Option.some.inj ha) (hpar a)

theorem calm_submitResume (s : State Err) (ret : Bool) : Calm s (s.submitResume ret) := by
  cases ret with
  | true => exact calm_of_stack_eq [.runSoon false] rfl le_rfl rfl rfl rfl (by simp)
  | false => exact Calm.refl s

/-- `NurseryBase::continuation()` leaves the start awaiters to themselves. -/
theorem calm_continuation {q : Option ℕ} (h : s.continuation q = .ok t) : Calm s t := by
  have hdrop : Calm s s.dropBackref := by
    unfold State.dropBackref
    split_ifs
    · exact calm_of_stack_eq [] rfl le_rfl rfl rfl rfl (by simp)
    · exact Calm.refl s
  have herase : Calm s.dropBackref (s.dropBackref.eraseTask q) := by
    cases q with
    | some p => exact calm_of_stack_eq [] rfl le_rfl rfl rfl rfl (by simp)
    | none => exact Calm.refl _
  have hclose : ∀ (v : State Err) (ret : Bool),
      Calm v (if ret then { v with parent := false, executor := false } else v) := by
    intro v ret
    split_ifs
    · exact calm_of_stack_eq [] rfl le_rfl rfl rfl rfl (by simp)
    · exact Calm.refl v
  refine (hdrop.trans herase).trans ((hclose _ (s.dropBackref.eraseTask q).finished).trans ?_)
  unfold State.continuation at h
  simp only at h
  split at h
  · cases h
  · cases q with
    | some p =>
      cases h
      exact calm_of_stack_eq [.runSoon _] rfl le_rfl rfl rfl rfl (by simp)
    | none =>
      cases h
      exact calm_submitResume _ _

theorem calm_storeInNursery {out : Outcome Err} (h : s.storeInNursery out = .ok t) : Calm s t := by
  unfold State.storeInNursery at h
  split at h
  · exact calm_storeError h
  · cases h
    exact Calm.refl s

theorem calm_storeInScope {out : Outcome Err} (h : s.storeInScope out = .ok t) : Calm s t := by
  cases out with
  | join => cases h; exact Calm.refl s
  | cancel => cases h; exact calm_cancel s
  | error err => exact calm_storeError h

theorem calm_store {par : Parent} {out : Outcome Err} (h : s.store par out = .ok t) :
    Calm s t := by
  cases par with
  | nursery => exact calm_storeInNursery h
  | scope => exact calm_storeInScope h
  | starter a =>
    simp only [State.store, State.storeInStarter] at h
    split at h
    · cases h
    · rename_i hst
      split at h
      · cases h
        exact calm_setStarter hst rfl rfl
      · split_ifs at h
        cases h
        exact Calm.refl s

/-! ### Start awaiters -/

/-- A start awaiter changes, the counter with it, and what reports to it is in order. -/
theorem Census.replace (hc : Census s) {a : ℕ} {st : Starter Err}
    (ha : a < t.nextId) (hn : s.nextId ≤ t.nextId) (hst : t.starters = s.starters.insert a st)
    (hcount : t.pendingTaskCount = count Starter.pending (s.starters.insert a st))
    (hserved : ∀ b, Serves t b → Serves s b ∨ b = a)
    (hself : Serves t a → st.nursery = true → st.promise.isSome = true) : Census t := by
  refine ⟨by rw [hst, hcount], fun b st' hb => ?_, fun b hb => ?_⟩
  · rw [hst, lookup_insert_eq] at hb
    split_ifs at hb with h
    · exact h ▸ ha
    · exact (hc.fresh b st' hb).trans_le hn
  · refine ⟨?_, fun st' hst' hn' => ?_⟩
    · rcases hserved b hb with h | h
      · exact (hc.served b h).1.trans_le hn
      · exact h ▸ ha
    · rw [hst, lookup_insert_eq] at hst'
      split_ifs at hst' with h
      · cases hst'
        subst h
        exact hself hb hn'
      · exact (hc.served b ((hserved b hb).resolve_right h)).2 st' hst' hn'

theorem Census.newStart (hc : Census s) :
    Census ({ s with nextId := s.nextId + 1 }.setStarter s.nextId
      ⟨true, none, false, false, .incomplete, true⟩) := by
  refine hc.replace (Nat.lt_succ_self _) (Nat.le_succ _) rfl ?_ (fun b hb => Or.inl hb)
    fun hself => absurd (hc.served s.nextId hself).1 (lt_irrefl _)
  have hnew := count_insert_of_not Starter.pending
    (⟨true, none, false, false, .incomplete, true⟩ : Starter Err) (r := s.starters) (k := s.nextId)
    fun b hb => absurd (hc.fresh s.nextId b hb) (lt_irrefl _)
  exact hc.counted.trans hnew.symm

/-- A start awaiter that is not counted stays so. -/
theorem Census.setStarter (hc : Census s) {a : ℕ} {st st' : Starter Err}
    (ha : s.starters.lookup a = some st) (hp : st.pending = false) (hn : st'.nursery = false) :
    Census (s.setStarter a st') := by
  refine hc.replace (hc.fresh a st ha) le_rfl rfl ?_ (fun b hb => Or.inl hb) fun _ h => ?_
  · have hcount := count_insert Starter.pending st' ha
    have hp' : st'.pending = false := by simp [Starter.pending, hn]
    rw [hp, hp'] at hcount
    exact hc.counted.trans (Nat.add_right_cancel hcount).symm
  · rw [hn] at h
    cases h

/-- A start awaiter gets a promise and is counted in. -/
theorem Census.countIn (hc : Census s) {a : ℕ} {st : Starter Err} {cr : Bool}
    (ha : s.starters.lookup a = some st) (hp : st.pending = false) (hn : st.nursery = true) :
    Census ({ s with
      pendingTaskCount := s.pendingTaskCount + 1
      nextId := s.nextId + 1 }.setStarter a { st with promise := some s.nextId, handle := true }
      |>.doResume s.nextId ⟨some (.starter a), .ready, cr, .doNothing⟩) := by
  refine hc.replace ((hc.fresh a st ha).trans (Nat.lt_succ_self _)) (Nat.le_succ _) rfl ?_
    (fun b hb => ?_) fun _ _ => rfl
  · have hcount := count_insert Starter.pending
      { st with promise := some s.nextId, handle := true } ha
    have hp' : Starter.pending { st with promise := some s.nextId, handle := true } = true := by
      simp [Starter.pending, hn]
    rw [hp, hp', if_pos rfl, if_neg (by decide)] at hcount
    show s.pendingTaskCount + 1 = _
    rw [hc.counted]
    exact hcount.symm
  · rcases hb with ⟨p, pr, h, hpar⟩ | h
    · simp only [State.doResume, State.submit, State.setPromise, State.setStarter,
        lookup_insert_eq] at h
      split_ifs at h
      · cases h
        cases hpar
        exact Or.inr rfl
      · exact Or.inl (Or.inl ⟨p, pr, h, hpar⟩)
    · exact Or.inl (Or.inr h)

theorem Census.startSuspend (hc : Census s) {a : ℕ} {st : Starter Err} {failure : Option Err}
    (ha : s.starters.lookup a = some st) (hp : st.promise = none)
    (hn : st.nursery = true) (h : s.startSuspend a st failure = .ok t) : Census t := by
  have hpend : st.pending = false := by simp [Starter.pending, hp]
  unfold State.startSuspend at h
  split at h
  · cases h
    exact hc.countIn ha hpend hn
  · split at h <;> cases h

/-- A start awaiter that is counted is counted off. -/
theorem Census.countOff (hc : Census s) {a : ℕ} {st : Starter Err} (st' : Starter Err)
    (ha : s.starters.lookup a = some st) (hp : st.pending = true) (hn : st'.nursery = false) :
    Census ({ s with pendingTaskCount := s.pendingTaskCount - 1 }.setStarter a st') := by
  refine hc.replace (hc.fresh a st ha) le_rfl rfl ?_ (fun b hb => Or.inl hb) fun _ h => ?_
  · have hcount := count_insert Starter.pending st' ha
    have hp' : st'.pending = false := by simp [Starter.pending, hn]
    rw [hp, hp', if_pos rfl, if_neg (by decide)] at hcount
    show s.pendingTaskCount - 1 = _
    rw [hc.counted]
    omega
  · rw [hn] at h
    cases h

/-- The promise of a start awaiter is done, handed over before or not. -/
theorem Census.startContinuation (hc : Census s) {a : ℕ} {q : Option ℕ} {below : List Frame}
    (hst : s.stack = .continuation (.starter a) q :: below)
    (h : { s with stack := below }.startContinuation a = .ok t) : Census t := by
  have hc' := hc.calm (calm_pop hst)
  unfold State.startContinuation at h
  split at h
  · cases h
  · rename_i st ha
    cases h
    cases hn : st.nursery with
    | true =>
      -- Something has reported to it, so it has been counted in.
      have hserves : Serves s a := Or.inr ⟨q, by rw [hst]; exact List.mem_cons_self⟩
      have hsome := (hc.served a hserves).2 st ha hn
      rw [if_pos rfl]
      exact hc'.countOff _ ha (by simp [Starter.pending, hn, hsome]) rfl
    | false =>
      rw [if_neg (by decide)]
      exact hc'.setStarter ha (by simp [Starter.pending, hn]) rfl

theorem Census.markStarted (hc : Census s) {a p : ℕ} {st : Starter Err}
    (ha : s.starters.lookup a = some st) (hp : st.promise = some p)
    (h : s.markStarted a st p = .ok t) : Census t := by
  unfold State.markStarted at h
  simp only at h
  split at h
  · cases h
    exact hc.calm (calm_setStarter ha rfl rfl)
  · split at h
    · rename_i hn _
      have hoff := hc.countOff { st with
        result := .value, sink := false, nursery := false, promise := none } ha
        (by simp [Starter.pending, hn, hp]) rfl
      refine Census.calm ?_ (calm_adopt h)
      exact hoff.calm (calm_setPromise fun b hb => by cases hb)
    · cases h

theorem Census.eraseStarter (hc : Census s) {a : ℕ} {st : Starter Err}
    (ha : s.starters.lookup a = some st) (hn : st.nursery = false) :
    Census { s with starters := s.starters.erase a } := by
  refine ⟨?_, fun b st' hb => hc.fresh b st' (lookup_of_lookup_erase hb), fun b hb => ?_⟩
  · have hcount := count_erase Starter.pending ha
    have hp : st.pending = false := by simp [Starter.pending, hn]
    rw [hp] at hcount
    exact hc.counted.trans hcount.symm
  · obtain ⟨hlt, hsome⟩ := hc.served b hb
    exact ⟨hlt, fun st' hb' => hsome st' (lookup_of_lookup_erase hb')⟩

/-! ### Runs -/

theorem Census.next (hc : Census s) (h : s.next = .ok t) : Census t := by
  unfold State.next at h
  split at h
  · rename_i hst
    exact hc.startContinuation hst h
  · rename_i hst
    exact hc.calm ((calm_pop hst).trans (calm_continuation h))
  · rename_i hst
    exact hc.calm ((calm_pop hst).trans (calm_adopted h))
  · rename_i hst
    cases h
    exact hc.calm ((calm_pop hst).trans (calm_submitResume _ _))
  · rename_i hst
    split_ifs at h
    cases h
    have hclosed : Calm s { s with stack := _, executor := false } :=
      (calm_pop hst).trans (calm_of_stack_eq [] rfl le_rfl rfl rfl rfl (by simp))
    exact hc.calm hclosed
  · cases h

theorem calm_execute {cb : Callback} (h : s.execute cb = .ok t) : Calm s t := by
  cases cb with
  | run p =>
    simp only [State.execute] at h
    split at h
    · rename_i pr hpr
      cases h
      refine calm_setPromise fun a ha => ?_
      exact Or.inl ⟨p, pr, hpr, ha⟩
    · cases h
  | cancel p => exact calm_cancelPromise h
  | destroy p => cases h; exact calm_destroy s p
  | resumeParent => cases h; exact Calm.refl s
  | cancelNursery => cases h; exact calm_cancel s

theorem Census.perform (hc : Census s) {a : Action Err} (h : s.perform a = .ok t) : Census t := by
  -- Changes of the nursery alone.
  have hsame : ∀ u : State Err, u.pendingTaskCount = s.pendingTaskCount → u.nextId = s.nextId →
      u.starters = s.starters → u.promises = s.promises → u.stack = s.stack → Calm s u :=
    fun u hp hn hst hpr hstack =>
      calm_of_stack_eq [] hp hn.ge hst hpr hstack fun _ _ h => by cases h
  cases performed_of_perform h with
  | openScope =>
    refine hc.calm (Calm.trans ?_ (calm_enter _ fun _ _ => Frame.noConfusion))
    exact hsame _ rfl rfl rfl rfl rfl
  | bodyPromise hst h => exact hc.calm ((calm_pop hst).trans (calm_addPromise h))
  | @bodyDone below _ _ hst h =>
    have htop : Calm s { s with stack := .continuation .scope none :: below } :=
      (calm_pop hst).trans (calm_of_stack_eq [.continuation .scope none] rfl le_rfl rfl rfl rfl
        (by simp))
    exact hc.calm (htop.trans (calm_storeInScope h))
  | joinClosed | startCancelHanded | resumeNothing => exact hc
  | joinEmpty | join | asyncCloseEmpty => exact hc.calm (hsame _ rfl rfl rfl rfl rfl)
  | asyncClose =>
    refine hc.calm (Calm.trans ?_ (calm_cancel _))
    exact hsame _ rfl rfl rfl rfl rfl
  | closeEmpty => exact hc.calm (calm_enter s fun _ _ => Frame.noConfusion)
  | close =>
    refine hc.calm (Calm.trans ?_ (calm_enter _ fun _ _ => Frame.noConfusion))
    exact hsame _ rfl rfl rfl rfl rfl
  | cancel => exact hc.calm (calm_cancel s)
  | startPromise h => exact hc.calm (calm_addPromise h)
  | startDone h => exact hc.calm (calm_storeInNursery h)
  | newStart => exact hc.newStart
  | startEarlyCancel ha => exact hc.calm (calm_setStarter ha rfl rfl)
  | startSuspend ha hp hn h => exact hc.startSuspend ha hp hn h
  | startCancel ha hh hcan hp h =>
    refine hc.calm (Calm.trans ?_ (calm_cancelPromise h))
    exact calm_setStarter ha rfl rfl
  | started ha hs hp h => exact hc.markStarted ha hp h
  | dropStart ha hh hn hp => exact (hc.eraseStarter ha hn).calm (calm_destroy _ _)
  | dropStartHanded ha hh hn hp => exact hc.eraseStarter ha hn
  | await hp hs h => exact hc.calm (calm_hookAwaitSuspend (fun a ha => Or.inl ⟨_, _, hp, ha⟩) h)
  | resume hp => exact hc.calm (calm_doResume fun a ha => Or.inl ⟨_, _, hp, ha⟩)
  | resumeAfterCancel hp hs hon h =>
    exact hc.calm (calm_doResumeAfterCancel (fun a ha => Or.inl ⟨_, _, hp, ha⟩) h)
  | cancelConfirmed hst hp hs h =>
    refine hc.calm ((calm_pop hst).trans (calm_propagateCancel (fun a ha => ?_) h))
    exact Or.inl ⟨_, _, hp, ha⟩
  | cancelRefused hst => exact hc.calm (calm_pop hst)
  | storeResult hp hs hpar h =>
    refine hc.calm ((calm_setPromise fun a ha => ?_).trans (calm_store h))
    exact Or.inl ⟨_, _, hp, ha⟩
  | finalSuspend hp hs hpar =>
    exact hc.calm (calm_detach (fun a ha => Or.inl ⟨_, _, hp, ha⟩) hpar rfl)
  | callback hcb h =>
    refine hc.calm (Calm.trans ?_ (calm_execute h))
    exact hsame _ rfl rfl rfl rfl rfl

/-- The step lemma. -/
theorem Census.step (hc : Census s) {a : Action Err} (h : step s a = .ok t) : Census t := by
  unfold Nursery.step at h
  split at h
  · exact hc.next h
  · split_ifs at h
    exact hc.perform h

/-- In every state of every run the counter is the number of the start awaiters that have a promise
that is neither handed over nor done; and it is not zero when it is counted down. -/
theorem pendingTaskCount_eq {kind : Kind} {ok : State Err → Action Err → Prop}
    (hr : Reach step ok (.init kind) s) :
    s.pendingTaskCount = count Starter.pending s.starters ∧
    (∀ a q below st, s.stack = .continuation (.starter a) q :: below →
      s.starters.lookup a = some st → st.nursery = true → 0 < s.pendingTaskCount) ∧
    ∀ a st, s.starters.lookup a = some st → st.nursery = true → st.promise.isSome = true →
      0 < s.pendingTaskCount := by
  have hc : Census s := hr.invariant (census_init kind) fun _ _ _ hc _ h => hc.step h
  have hpos : ∀ a st, s.starters.lookup a = some st → st.nursery = true →
      st.promise.isSome = true → 0 < s.pendingTaskCount := by
    intro a st ha hn hsome
    have hcount := count_erase Starter.pending ha
    have hp : st.pending = true := by simp [Starter.pending, hn, hsome]
    rw [hp, if_pos rfl] at hcount
    rw [hc.counted]
    omega
  refine ⟨hc.counted, fun a q below st hst ha hn => hpos a st ha hn ?_, hpos⟩
  refine (hc.served a (Or.inr ⟨q, ?_⟩)).2 st ha hn
  rw [hst]
  exact List.mem_cons_self

end Corral.Nursery
