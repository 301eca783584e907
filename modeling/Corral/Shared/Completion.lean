import Corral.Shared.EarlyCancel

/-!
# A shared operation that nobody cancels

When the wrapped awaiter resumes the handle, `invoke()` takes the parents off the list and wakes
them up; `result_` stays `Incomplete` until the first of them has called `await_resume()`.  Until
then the state is that of an operation that has not been started, unless the wrapped awaiter says
that it is ready.  So a parent that arrives in between starts the wrapped awaiter once more, and so
does a parent that has found it not ready before, and suspends now.

* `Punctual`: the condition of the runs in question, no parent is cancelled, and none arrives or
  suspends at such a moment;
* `Orderly`: the invariant of such runs;
* `Completes`: a parent gets the result with no further help of the wrapped awaiter;
* `completes_once`: in such a run the wrapped awaiter is started at most once, and when it has
  ended every parent completes.
-/

namespace Corral.Shared

open ActionMachine Registry AwaiterStateChecker

variable {V Err : Type*} {cas : Bool} {s t : State V Err}

/-- `await_suspend()` of the wrapped awaiter has been called, and the handle has been resumed since,
or `await_suspend()` has thrown. -/
def Wrapped.ended (w : Wrapped) : Bool := w.started && !w.running

/-- The operation has ended, but neither `result_` nor `await_ready()` of the wrapped awaiter tells
so. -/
def State.undecided (s : State V Err) : Bool :=
  match s.result with
  | .incomplete => s.wrapped.ended && !s.wrapped.ready
  | _ => false

/-- No parent is cancelled. -/
def Uncancelled (_ : State V Err) : Action V Err → Prop
  | .awaitEarlyCancel _ _ => False
  | .awaitCancel _ => False
  | _ => True

/-- And no parent asks `await_ready()` when the operation has ended without telling so, or calls
`await_suspend()` when it has ended. -/
def Punctual (s : State V Err) : Action V Err → Prop
  | .awaitReady _ => s.undecided = false
  | .awaitSuspend _ => s.wrapped.ended = false
  | .awaitEarlyCancel _ _ => False
  | .awaitCancel _ => False
  | _ => True

instance (s : State V Err) : (a : Action V Err) → Decidable (Uncancelled s a)
  | .awaitEarlyCancel _ _ | .awaitCancel _ => instDecidableFalse
  | .newAwaiter _ | .awaitReady _ | .awaitSuspend _ | .awaitMustResume _ _ | .awaitResume _ _
  | .drop _ | .becomesReady | .resumes _ | .suspendReturns | .suspendThrows _ | .cancelReturns _
  | .next => instDecidableTrue

instance (s : State V Err) : (a : Action V Err) → Decidable (Punctual s a)
  | .awaitReady _ => inferInstanceAs (Decidable (s.undecided = false))
  | .awaitSuspend _ => inferInstanceAs (Decidable (s.wrapped.ended = false))
  | .awaitEarlyCancel _ _ | .awaitCancel _ => instDecidableFalse
  | .newAwaiter _ | .awaitMustResume _ _ | .awaitResume _ _ | .drop _ | .becomesReady | .resumes _
  | .suspendReturns | .suspendThrows _ | .cancelReturns _ | .next => instDecidableTrue

/-- The steps that call `await_suspend()` of the wrapped awaiter. -/
def starts : State V Err × Action V Err → Bool
  | (s, .awaitSuspend _) => s.parents.isEmpty
  | _ => false

/-! ### The invariant -/

/-- The parents that a call in progress is going to wake up. -/
def Frame.parents : Frame → List ℕ
  | .invoke ps => ps
  | _ => []

/-- The parents that have been suspended and not been resumed yet. -/
def State.waiting (s : State V Err) : List ℕ := s.parents ++ s.stack.flatMap Frame.parents

/-- `Incomplete`, `Value` or `Exception`. -/
def Result.uncancelled : Result V Err → Bool
  | .incomplete => true
  | .value _ => true
  | .exception _ => true
  | _ => false

/-- What the checker of a parent's awaiter says if the parent is not cancelled. -/
def uncancelledState : AwaiterStateChecker.State → Bool
  | .initial => true
  | .notReady => true
  | .readyImmediately => true
  | .running => true
  | .ready => true
  | .done => true
  | _ => false

/-- The calls in progress: `await_suspend()` of the wrapped awaiter, and on top of it the loop of
`invoke()`. -/
def Staged : List Frame → Prop
  | [] => True
  | [.awaitSuspend] => True
  | [.invoke _] => True
  | [.invoke _, .awaitSuspend] => True
  | _ => False

/-- The invariant. -/
structure Orderly (s : State V Err) : Prop where
  result : s.result.uncancelled = true
  awaiters : ∀ p aw, s.awaiters.lookup p = some aw →
    aw.attached = true ∧ uncancelledState aw.checker.state = true
  started : s.wrapped.running = true → s.wrapped.started = true
  parents : s.parents = [] ↔ s.wrapped.running = false
  staged : Staged s.stack
  called : s.stack ≠ [] → s.wrapped.started = true
  woken : ∀ ps, Frame.invoke ps ∈ s.stack → s.wrapped.running = false
  nodup : s.waiting.Nodup
  waiting : ∀ p, p ∈ s.waiting ↔
    ∃ aw, s.awaiters.lookup p = some aw ∧ aw.checker.state = .running
  fresh : ∀ p aw, s.awaiters.lookup p = some aw → p < s.nextId

theorem orderly_init : Orderly (State.init : State V Err) := by
  refine ⟨rfl, fun p aw h => ?_, fun h => ?_, ?_, trivial, fun h => absurd rfl h, fun ps h => ?_,
    List.nodup_nil, fun p => ?_, fun p aw h => ?_⟩
  · cases h
  · cases h
  · simp [State.init]
  · cases h
  · constructor
    · intro h
      cases h
    · rintro ⟨aw, h, -⟩
      cases h
  · cases h

/-- An awaiter changes, but not whether its parent is waiting. -/
theorem Orderly.setAwaiter (ho : Orderly s) {p : ℕ} {aw aw' : Awaiter}
    (hp : s.awaiters.lookup p = some aw) (hat : aw'.attached = true)
    (hst : uncancelledState aw'.checker.state = true)
    (hrun : aw'.checker.state = .running ↔ aw.checker.state = .running) :
    Orderly (s.setAwaiter p aw') := by
  refine { ho with
    awaiters := fun q aw'' hq => ?_
    waiting := fun q => ?_
    nodup := ho.nodup
    fresh := fun q aw'' hq => ?_ }
  · simp only [State.setAwaiter, lookup_insert_eq] at hq
    split_ifs at hq
    · cases hq
      exact ⟨hat, hst⟩
    · exact ho.awaiters q aw'' hq
  · refine (ho.waiting q).trans ?_
    simp only [State.setAwaiter, lookup_insert_eq]
    split_ifs with h
    · subst h
      simp [hp, hrun]
    · rfl
  · simp only [State.setAwaiter, lookup_insert_eq] at hq
    split_ifs at hq with h
    · exact h ▸ ho.fresh p aw hp
    · exact ho.fresh q aw'' hq

theorem Orderly.record (ho : Orderly s) (c : Call) : Orderly (s.record c) :=
  { ho with nodup := ho.nodup, waiting := ho.waiting }

/-- The checker of a parent that makes a call other than `await_suspend()`, and is not cancelled. -/
theorem Orderly.check (ho : Orderly s) {p : ℕ} {aw : Awaiter} {c : Option Checker}
    (hp : s.awaiters.lookup p = some aw)
    (hc : ∀ c', c = some c' → uncancelledState c'.state = true ∧ c'.state ≠ .running ∧
      aw.checker.state ≠ .running) (h : s.check p aw c = .ok t) : Orderly t := by
  obtain ⟨c', rfl, rfl⟩ := check_eq_ok h
  obtain ⟨hst, hnot, hnot'⟩ := hc c' rfl
  exact ho.setAwaiter hp (ho.awaiters p aw hp).1 hst (iff_of_false hnot hnot')

/-! ### What the parents call -/

theorem readyReturned_uncancelled {c c' : Checker} {val : Bool}
    (hc : uncancelledState c.state = true) (h : c.readyReturned val = some c') :
    uncancelledState c'.state = true ∧ c'.state ≠ .running ∧ c.state ≠ .running := by
  obtain ⟨st, ex⟩ := c
  cases st <;> cases val <;> simp_all [Checker.readyReturned, Checker.set, uncancelledState] <;>
    subst h <;> simp

theorem readyReturned_false {c c' : Checker} (hc : uncancelledState c.state = true)
    (h : c.readyReturned false = some c') : c'.state = .notReady := by
  obtain ⟨st, ex⟩ := c
  cases st <;> simp_all [Checker.readyReturned, Checker.set, uncancelledState] <;> subst h <;> rfl

theorem Orderly.awaitReady (ho : Orderly s) {p : ℕ} {aw : Awaiter}
    (hp : s.awaiters.lookup p = some aw) (h : s.perform cas p aw (.awaitReady p) = .ok t) :
    Orderly t := by
  have hc : ∀ c', aw.checker.readyReturned (!aw.attached || s.ready) = some c' →
      uncancelledState c'.state = true ∧ c'.state ≠ .running ∧ aw.checker.state ≠ .running :=
    fun c' => readyReturned_uncancelled (ho.awaiters p aw hp).2
  simp only [State.perform] at h
  split_ifs at h
  · exact (ho.record _).check hp hc h
  · exact ho.check hp hc h

theorem aboutToSuspend_uncancelled {c c' : Checker} (hc : uncancelledState c.state = true)
    (h : (c.aboutToSetExecutor).bind Checker.aboutToSuspend = some c') :
    c.state = .notReady ∧ c'.state = .running := by
  obtain ⟨st, ex⟩ := c
  cases st <;> simp_all [Checker.aboutToSetExecutor, Checker.aboutToSuspend, Checker.set,
    uncancelledState]
  subst h
  rfl

/-- The parents that wait once `p` has been added. -/
theorem Orderly.mem_waiting_suspend (ho : Orderly s) {p : ℕ} {aw : Awaiter} (aw' : Awaiter)
    (hp : s.awaiters.lookup p = some aw) (hnot : aw.checker.state = .notReady)
    (hrun : aw'.checker.state = .running) {l : List ℕ}
    (hl : l.Perm (p :: s.waiting)) :
    l.Nodup ∧ ∀ q, q ∈ l ↔
      ∃ aw'', (s.setAwaiter p aw').awaiters.lookup q = some aw'' ∧ aw''.checker.state = .running := by
  have hnew : p ∉ s.waiting := by
    rw [ho.waiting]
    rintro ⟨aw'', h, hst⟩
    rw [hp] at h
    cases h
    rw [hnot] at hst
    cases hst
  refine ⟨hl.nodup_iff.2 (List.nodup_cons.2 ⟨hnew, ho.nodup⟩), fun q => ?_⟩
  rw [hl.mem_iff, List.mem_cons, ho.waiting]
  simp only [State.setAwaiter, lookup_insert_eq]
  split_ifs with h
  · simp [h, hrun]
  · simp [h]

theorem Orderly.suspend (ho : Orderly s) {p : ℕ} {aw : Awaiter}
    (hp : s.awaiters.lookup p = some aw) (hend : s.wrapped.ended = false)
    (h : s.suspend p aw = .ok t) :
    Orderly t ∧ (s.parents = [] → s.wrapped.started = false ∧ t.wrapped.started = true) ∧
      (s.parents ≠ [] → t.wrapped = s.wrapped) := by
  obtain ⟨hat, hst⟩ := ho.awaiters p aw hp
  unfold State.suspend at h
  simp only at h
  split at h
  · rename_i c _ hc
    obtain ⟨hnot, hrun⟩ := aboutToSuspend_uncancelled hst hc
    have hperm : (s.parents ++ [p] ++ s.stack.flatMap Frame.parents).Perm (p :: s.waiting) := by
      rw [List.append_assoc]
      exact List.perm_middle
    obtain ⟨hnodup, hmem⟩ := ho.mem_waiting_suspend { aw with checker := c } hp hnot hrun hperm
    have haw : ∀ q aw', (s.setAwaiter p { aw with checker := c }).awaiters.lookup q = some aw' →
        (aw'.attached = true ∧ uncancelledState aw'.checker.state = true) ∧ q < s.nextId := by
      intro q aw' hq
      simp only [State.setAwaiter, lookup_insert_eq] at hq
      split_ifs at hq with h
      · cases hq
        exact ⟨⟨hat, by rw [hrun]; rfl⟩, h ▸ ho.fresh p aw hp⟩
      · exact ⟨ho.awaiters q aw' hq, ho.fresh q aw' hq⟩
    split_ifs at h with hnil
    · cases h
      -- Nobody waits, and the operation has not ended: so it has not been started.
      have hidle := ho.parents.1 hnil
      have hstart : s.wrapped.started = false := by
        simpa [Wrapped.ended, hidle] using hend
      have hstack : s.stack = [] := by
        by_contra hne
        rw [ho.called hne] at hstart
        cases hstart
      have hres : s.result.onSuspend = s.result := by
        have := ho.result
        cases hr : s.result <;> simp_all [Result.onSuspend, Result.uncancelled]
      refine ⟨⟨?_, fun q aw' hq => (haw q aw' hq).1, fun _ => rfl, ?_, ?_, fun _ => rfl, ?_, ?_, ?_,
        fun q aw' hq => (haw q aw' hq).2⟩, fun _ => ⟨hstart, rfl⟩, fun hne => absurd hnil hne⟩
      · show s.result.onSuspend.uncancelled = true
        rw [hres]
        exact ho.result
      · simp [State.enter, State.setWrapped, State.setResult, State.setAwaiter]
      · show Staged (.awaitSuspend :: s.stack)
        rw [hstack]
        trivial
      · intro ps hps
        rcases List.mem_cons.1 hps with hps | hps
        · cases hps
        · rw [show _ = s.stack from rfl, hstack] at hps
          cases hps
      · exact hnodup
      · exact hmem
    · cases h
      refine ⟨{ ho with
        awaiters := fun q aw' hq => (haw q aw' hq).1
        parents := ?_
        nodup := hnodup
        waiting := hmem
        fresh := fun q aw' hq => (haw q aw' hq).2 }, fun h => absurd h hnil, fun _ => rfl⟩
      have hrunning : s.wrapped.running = true := by
        have := mt ho.parents.2 hnil
        simpa using this
      simp [State.setAwaiter, hrunning]
  · cases h
  · cases h

/-- `await_resume()` fetches the result if nobody has fetched it yet. -/
theorem fetch_result (s : State V Err) (hr : s.result.uncancelled = true) (res : Except Err V) :
    (∃ v, (s.fetch res).result = .value v) ∨ ∃ err, (s.fetch res).result = .exception err := by
  unfold State.fetch
  cases h : s.result with
  | incomplete =>
    cases res with
    | ok v => exact Or.inl ⟨v, rfl⟩
    | error err => exact Or.inr ⟨err, rfl⟩
  | value v => exact Or.inl ⟨v, h⟩
  | exception err => exact Or.inr ⟨err, h⟩
  | cancelPending | cancelling | cancelled => rw [h] at hr; cases hr

theorem Orderly.fetch (ho : Orderly s) (res : Except Err V) : Orderly (s.fetch res) := by
  have hres : (s.fetch res).result.uncancelled = true := by
    rcases fetch_result s ho.result res with ⟨v, h⟩ | ⟨err, h⟩ <;> rw [h] <;> rfl
  unfold State.fetch at hres ⊢
  split at hres
  · exact { ho with result := hres, nodup := ho.nodup, waiting := ho.waiting }
  · exact { ho with result := hres, nodup := ho.nodup, waiting := ho.waiting }
  · exact ho

theorem fetch_wrapped (s : State V Err) (res : Except Err V) :
    (s.fetch res).wrapped = s.wrapped := by
  unfold State.fetch
  split <;> rfl

theorem aboutToResume_uncancelled {c c' : Checker} (h : c.aboutToResume = some c') :
    uncancelledState c'.state = true ∧ c'.state ≠ .running ∧ c.state ≠ .running := by
  unfold Checker.aboutToResume at h
  split_ifs at h with hc
  cases h
  refine ⟨rfl, by simp [Checker.set], ?_⟩
  rcases hc with hc | hc <;> rw [hc] <;> simp

theorem Orderly.awaitResume (ho : Orderly s) {p : ℕ} {aw : Awaiter} {res : Except Err V}
    (hp : s.awaiters.lookup p = some aw) (h : s.awaitResume p aw res = .ok t) :
    Orderly t ∧ t.wrapped = s.wrapped := by
  have hp' : (s.fetch res).awaiters.lookup p = some aw := by rw [fetch_awaiters]; exact hp
  have hc : ∀ c', aw.checker.aboutToResume = some c' →
      uncancelledState c'.state = true ∧ c'.state ≠ .running ∧ aw.checker.state ≠ .running :=
    fun c' => aboutToResume_uncancelled
  have hw := fetch_wrapped s res
  unfold State.awaitResume at h
  rw [if_neg (by rw [(ho.awaiters p aw hp).1]; decide)] at h
  simp only at h
  rcases fetch_result s ho.result res with ⟨v, hr⟩ | ⟨err, hr⟩
  · simp only [hr] at h
    refine ⟨((ho.fetch res).record _).check hp' hc h, ?_⟩
    obtain ⟨c', -, rfl⟩ := check_eq_ok h
    exact hw
  · simp only [hr] at h
    refine ⟨(ho.fetch res).check hp' hc h, ?_⟩
    obtain ⟨c', -, rfl⟩ := check_eq_ok h
    exact hw

/-- Nobody asks `await_must_resume()` of an awaiter that has not been cancelled. -/
theorem Orderly.not_mustResume (ho : Orderly s) {p : ℕ} {aw : Awaiter} {must : Bool}
    (hp : s.awaiters.lookup p = some aw) : s.mustResume cas p aw must ≠ .ok t := by
  have hnone : ∀ val, aw.checker.mustResumeReturned val = none := by
    intro val
    have hst := (ho.awaiters p aw hp).2
    unfold Checker.mustResumeReturned
    rw [if_neg]
    intro hc
    rw [hc] at hst
    cases hst
  intro h
  unfold State.mustResume at h
  rw [if_neg (by rw [(ho.awaiters p aw hp).1]; decide)] at h
  simp only [hnone] at h
  split_ifs at h <;> cases h

theorem Orderly.drop (ho : Orderly s) {p : ℕ} {aw : Awaiter} (hp : s.awaiters.lookup p = some aw)
    (hreset : aw.checker.mayReset = true) :
    Orderly { s with awaiters := s.awaiters.erase p } := by
  refine { ho with
    awaiters := fun q aw' hq => ho.awaiters q aw' (lookup_of_lookup_erase hq)
    waiting := fun q => (ho.waiting q).trans ?_
    nodup := ho.nodup
    fresh := fun q aw' hq => ho.fresh q aw' (lookup_of_lookup_erase hq) }
  rw [lookup_erase_eq]
  split_ifs with h
  · subst h
    simp only [hp, Option.some.injEq, exists_eq_left', false_and, exists_false, iff_false]
    intro hrun
    simp [Checker.mayReset, hrun] at hreset
  · rfl

/-! ### What the wrapped awaiter does -/

/-- The handle is resumed, or `await_suspend()` has thrown: the loop of `invoke()` gets the
parents. -/
theorem Orderly.invoke (ho : Orderly s) {r : Result V Err} {w : Wrapped} {st : List Frame}
    (must : Bool) (hr : r.uncancelled = true) (hrun : s.wrapped.running = true)
    (hw : w.running = false) (hstart : w.started = true)
    (hst : st = [] ∨ st = [.awaitSuspend]) :
    Orderly ({ s with result := r, wrapped := w, stack := st }.invoke must) := by
  have hframes : s.stack.flatMap Frame.parents = [] := by
    rw [List.flatMap_eq_nil_iff]
    intro f hf
    cases f with
    | invoke ps => rw [ho.woken ps hf] at hrun; cases hrun
    | awaitSuspend | awaitCancel => rfl
  have hwait : s.waiting = s.parents := by rw [State.waiting, hframes, List.append_nil]
  have hbelow : st.flatMap Frame.parents = [] := by rcases hst with rfl | rfl <;> rfl
  have hinvoke : { s with result := r, wrapped := w, stack := st }.invoke must =
      { s with result := r, wrapped := w, parents := [], stack := .invoke s.parents :: st } := by
    cases r <;> first | rfl | cases hr
  have hwait' : State.waiting { s with
      result := r, wrapped := w, parents := [], stack := .invoke s.parents :: st } = s.waiting := by
    rw [hwait]
    simp [State.waiting, hbelow, Frame.parents]
  rw [hinvoke]
  refine { ho with
    result := hr
    started := fun h => by rw [show w.running = true from h] at hw; cases hw
    parents := iff_of_true rfl hw
    staged := ?_
    called := fun _ => hstart
    woken := fun _ _ => hw
    nodup := hwait' ▸ ho.nodup
    waiting := fun q => by rw [hwait']; exact ho.waiting q }
  rcases hst with rfl | rfl <;> trivial

/-- No loop of `invoke()` is in progress while the wrapped awaiter is running. -/
theorem Orderly.stack_of_running (ho : Orderly s) (hrun : s.wrapped.running = true) :
    s.stack = [] ∨ s.stack = [.awaitSuspend] := by
  have hnot : ∀ ps, Frame.invoke ps ∉ s.stack := fun ps h => by
    rw [ho.woken ps h] at hrun
    cases hrun
  have hst := ho.staged
  unfold Staged at hst
  split at hst <;> simp_all

/-- `await_suspend()` of the wrapped awaiter returns or throws. -/
theorem Orderly.stack_of_awaitSuspend (ho : Orderly s) {below : List Frame}
    (h : s.stack = .awaitSuspend :: below) : below = [] := by
  have hst := ho.staged
  rw [h] at hst
  cases below with
  | nil => rfl
  | cons f fs => cases hst

/-- A call that has no more parents to wake up returns. -/
theorem Orderly.pop (ho : Orderly s) {f : Frame} {below : List Frame} (hst : s.stack = f :: below)
    (hf : f.parents = []) (hbelow : Staged below) : Orderly { s with stack := below } := by
  have hwait : State.waiting { s with stack := below } = s.waiting := by
    simp [State.waiting, hst, hf]
  refine { ho with
    staged := hbelow
    called := fun _ => ho.called (by rw [hst]; simp)
    woken := fun ps hps => ho.woken ps (by rw [hst]; exact List.mem_cons_of_mem _ hps)
    nodup := hwait ▸ ho.nodup
    waiting := fun q => by rw [hwait]; exact ho.waiting q }

theorem Orderly.staged_below (ho : Orderly s) {ps : List ℕ} {below : List Frame}
    (hst : s.stack = .invoke ps :: below) : Staged below := by
  have hstaged := ho.staged
  rw [hst] at hstaged
  unfold Staged at hstaged
  split at hstaged <;> simp_all [Staged]

/-- Who is about to be woken up is waiting. -/
theorem Orderly.running_of_invoke (ho : Orderly s) {p : ℕ} {ps : List ℕ} {below : List Frame}
    {aw : Awaiter} (hst : s.stack = .invoke (p :: ps) :: below)
    (hp : s.awaiters.lookup p = some aw) : aw.checker.state = .running := by
  have hmem : p ∈ s.waiting := by simp [State.waiting, hst, Frame.parents]
  obtain ⟨aw', hp', hrun⟩ := (ho.waiting p).1 hmem
  rw [hp] at hp'
  cases hp'
  exact hrun

/-- One parent is woken up. -/
theorem Orderly.wakeUp (ho : Orderly s) {p : ℕ} {ps : List ℕ} {below : List Frame} {aw : Awaiter}
    (hst : s.stack = .invoke (p :: ps) :: below) (hp : s.awaiters.lookup p = some aw) :
    Orderly (({ s with stack := .invoke ps :: below }.record (.resumes p)).setAwaiter p
      { aw with checker := aw.checker.set .ready }) := by
  have hidle := ho.woken (p :: ps) (by rw [hst]; exact List.mem_cons_self)
  have hnil := ho.parents.2 hidle
  have hwait : s.waiting = p :: (ps ++ below.flatMap Frame.parents) := by
    simp [State.waiting, hnil, hst, Frame.parents]
  have hnodup := ho.nodup
  rw [hwait, List.nodup_cons] at hnodup
  have hwait' : State.waiting (({ s with stack := .invoke ps :: below }.record
      (.resumes p)).setAwaiter p { aw with checker := aw.checker.set .ready }) =
      ps ++ below.flatMap Frame.parents := by
    simp [State.waiting, State.setAwaiter, State.record, hnil, Frame.parents]
  have haw : ∀ q aw', (s.awaiters.insert p { aw with checker := aw.checker.set .ready }).lookup q =
      some aw' → (aw'.attached = true ∧ uncancelledState aw'.checker.state = true) ∧
        q < s.nextId := by
    intro q aw' hq
    rw [lookup_insert_eq] at hq
    split_ifs at hq with h
    · cases hq
      exact ⟨⟨(ho.awaiters p aw hp).1, rfl⟩, h ▸ ho.fresh p aw hp⟩
    · exact ⟨ho.awaiters q aw' hq, ho.fresh q aw' hq⟩
  refine { ho with
    awaiters := fun q aw' hq => (haw q aw' hq).1
    staged := ?_
    called := fun _ => ho.called (by rw [hst]; simp)
    woken := fun _ _ => hidle
    nodup := hwait' ▸ hnodup.2
    waiting := fun q => ?_
    fresh := fun q aw' hq => (haw q aw' hq).2 }
  · have hstaged := ho.staged
    rw [hst] at hstaged
    unfold Staged at hstaged
    split at hstaged <;> simp_all [State.setAwaiter, State.record, Staged]
  · rw [hwait']
    simp only [State.setAwaiter, State.record, lookup_insert_eq]
    split_ifs with h
    · subst h
      exact iff_of_false hnodup.1 (by simp [Checker.set])
    · rw [← ho.waiting q, hwait, List.mem_cons]
      simp [h]

theorem Orderly.newAwaiter (ho : Orderly s) (optional : Bool) :
    Orderly ({ s with nextId := s.nextId + 1 }.setAwaiter s.nextId ⟨true, optional, .init⟩) := by
  have hnew : s.awaiters.lookup s.nextId = none := by
    cases h : s.awaiters.lookup s.nextId with
    | none => rfl
    | some aw => exact absurd (ho.fresh s.nextId aw h) (lt_irrefl _)
  refine { ho with
    awaiters := fun q aw' hq => ?_
    waiting := fun q => (ho.waiting q).trans ?_
    nodup := ho.nodup
    fresh := fun q aw' hq => ?_ }
  · simp only [State.setAwaiter, lookup_insert_eq] at hq
    split_ifs at hq
    · cases hq
      exact ⟨rfl, rfl⟩
    · exact ho.awaiters q aw' hq
  · simp only [State.setAwaiter, lookup_insert_eq]
    split_ifs with h
    · subst h
      simp [hnew, Checker.init]
    · rfl
  · simp only [State.setAwaiter, lookup_insert_eq] at hq
    split_ifs at hq with h
    · exact h ▸ Nat.lt_succ_self _
    · exact (ho.fresh q aw' hq).trans (Nat.lt_succ_self _)

theorem Orderly.internal (ho : Orderly s) {a : Action V Err} (h : s.internal a = .ok t) :
    Orderly t ∧ t.wrapped.started = s.wrapped.started := by
  cases a with
  | newAwaiter optional =>
    cases h
    exact ⟨ho.newAwaiter optional, rfl⟩
  | becomesReady =>
    cases h
    exact ⟨{ ho with nodup := ho.nodup, waiting := ho.waiting }, rfl⟩
  | resumes must =>
    simp only [State.internal] at h
    split_ifs at h with hrun
    cases h
    have hinv := ho.invoke (w := { s.wrapped with running := false, completed := true }) must
      ho.result hrun rfl (ho.started hrun)
      (ho.stack_of_running hrun)
    refine ⟨hinv, ?_⟩
    unfold State.invoke
    simp only
    split <;> rfl
  | suspendReturns =>
    simp only [State.internal] at h
    split at h
    · rename_i below hst
      cases h
      cases ho.stack_of_awaitSuspend hst
      exact ⟨ho.pop hst rfl trivial, rfl⟩
    · cases h
  | suspendThrows err =>
    simp only [State.internal] at h
    split at h
    · rename_i below hst
      split_ifs at h with hrun
      cases h
      cases ho.stack_of_awaitSuspend hst
      exact ⟨ho.invoke (r := .exception err) (w := { s.wrapped with running := false }) false rfl hrun
        rfl (ho.started hrun) (Or.inl rfl), rfl⟩
    · cases h
  | cancelReturns done =>
    simp only [State.internal] at h
    split at h
    · rename_i hst
      have hstaged := ho.staged
      rw [hst] at hstaged
      cases hstaged
    · cases h
  | next =>
    simp only [State.internal] at h
    split at h
    · rename_i below hst
      cases h
      exact ⟨ho.pop hst rfl (ho.staged_below hst), rfl⟩
    · rename_i p ps below hst
      split at h
      · rename_i aw hp
        obtain ⟨c', hc', rfl⟩ := check_eq_ok h
        have hrun := ho.running_of_invoke hst hp
        simp only [Checker.resumed, hrun, Option.some.injEq] at hc'
        subst hc'
        exact ⟨ho.wakeUp hst hp, rfl⟩
      · cases h
    · cases h
  | awaitReady | awaitEarlyCancel | awaitSuspend | awaitCancel | awaitMustResume | awaitResume
    | drop => cases h

/-! ### Runs -/

/-- What the parents call starts the wrapped awaiter only if it has not been started before. -/
theorem Orderly.perform (ho : Orderly s) {p : ℕ} {aw : Awaiter} {a : Action V Err}
    (hp : s.awaiters.lookup p = some aw) (ha : a.caller = some p) (hok : Punctual s a)
    (h : s.perform cas p aw a = .ok t) :
    Orderly t ∧ (starts (s, a) = true → s.wrapped.started = false ∧ t.wrapped.started = true) ∧
      (starts (s, a) = false → t.wrapped.started = s.wrapped.started) := by
  cases a with
  | awaitReady q =>
    cases ha
    refine ⟨ho.awaitReady hp h, fun hs => (by cases hs), fun _ => ?_⟩
    simp only [State.perform] at h
    obtain ⟨c', -, rfl⟩ := check_eq_ok h
    split_ifs <;> rfl
  | awaitSuspend q =>
    obtain ⟨ho', hfirst, hother⟩ := ho.suspend hp hok h
    refine ⟨ho', fun hs => hfirst (by simpa [starts] using hs), fun hs => ?_⟩
    rw [hother (by simpa [starts] using hs)]
  | awaitMustResume q must => exact absurd h (ho.not_mustResume hp)
  | awaitResume q res =>
    obtain ⟨ho', hw⟩ := ho.awaitResume hp h
    exact ⟨ho', fun hs => (by cases hs), fun _ => by rw [hw]⟩
  | drop q =>
    simp only [State.perform] at h
    split_ifs at h with hreset
    cases h
    exact ⟨ho.drop hp hreset, fun hs => (by cases hs), fun _ => rfl⟩
  | awaitEarlyCancel | awaitCancel => exact hok.elim
  | newAwaiter | becomesReady | resumes | suspendReturns | suspendThrows | cancelReturns | next =>
    cases ha

/-- The step lemma. -/
theorem Orderly.step (ho : Orderly s) {a : Action V Err} (hok : Punctual s a)
    (h : step cas s a = .ok t) :
    Orderly t ∧ (starts (s, a) = true → s.wrapped.started = false ∧ t.wrapped.started = true) ∧
      (starts (s, a) = false → t.wrapped.started = s.wrapped.started) := by
  unfold Shared.step at h
  split at h
  · rename_i p ha
    split at h
    · rename_i hp
      exact ho.perform hp ha hok h
    · cases h
  · rename_i ha
    obtain ⟨ho', hw⟩ := ho.internal h
    refine ⟨ho', fun hs => ?_, fun _ => hw⟩
    cases a <;> first | cases hs | cases ha

/-- The run lemma: the wrapped awaiter is started as often as its `started` says. -/
theorem orderly_of_run {l : List (State V Err × Action V Err)}
    (hr : Run (step cas) Punctual .init l s) :
    Orderly s ∧ l.countP starts = if s.wrapped.started then 1 else 0 := by
  refine hr.invariant (I := fun l s => Orderly s ∧ l.countP starts =
    if s.wrapped.started then 1 else 0) ⟨orderly_init, rfl⟩ ?_
  rintro l s a t ⟨ho, hcount⟩ hok h
  obtain ⟨ho', hfirst, hother⟩ := ho.step hok h
  refine ⟨ho', ?_⟩
  rw [List.countP_append, List.countP_singleton, hcount]
  cases hs : starts (s, a) with
  | true =>
    obtain ⟨hnot, hyes⟩ := hfirst hs
    simp [hnot, hyes]
  | false => simp [hother hs]

/-! ### Completion -/

/-- Some awaiter is in the given state. -/
def State.isIn (s : State V Err) (p : ℕ) (st : AwaiterStateChecker.State) : Prop :=
  ∃ aw, s.awaiters.lookup p = some aw ∧ aw.checker.state = st

/-- The parent gets the result: the loop of `invoke()` goes on, the parent calls `await_resume()`,
and the wrapped awaiter does nothing but answer `res` if it is asked for its result. -/
def Completes (cas : Bool) (s : State V Err) (p : ℕ) : Prop :=
  ∀ res, ∃ as t, (∀ a ∈ as, a = .next ∨ a = .awaitResume p res) ∧
    exec (step cas) s as = .ok t ∧ t.isIn p .done ∧ t.result = (s.fetch res).result

/-- A parent that has been told that the operation is over takes the result. -/
theorem Orderly.exists_awaitResume (cas : Bool) (ho : Orderly s) {p : ℕ} {aw : Awaiter}
    (hp : s.awaiters.lookup p = some aw)
    (hst : aw.checker.state = .ready ∨ aw.checker.state = .readyImmediately)
    (res : Except Err V) :
    ∃ t, Shared.step cas s (.awaitResume p res) = .ok t ∧ t.isIn p .done ∧
      t.result = (s.fetch res).result := by
  have hc : aw.checker.aboutToResume = some (aw.checker.set .done) := by
    rw [Checker.aboutToResume, if_pos hst.symm]
  have hat := (ho.awaiters p aw hp).1
  have hdone : ∀ u : State V Err, (u.setAwaiter p { aw with
      checker := aw.checker.set .done }).isIn p .done := fun u =>
    ⟨_, by rw [State.setAwaiter, lookup_insert_eq, if_pos rfl], rfl⟩
  rcases fetch_result s ho.result res with ⟨v, hr⟩ | ⟨err, hr⟩
  · refine ⟨((s.fetch res).record (.succeeds p)).setAwaiter p { aw with
      checker := aw.checker.set .done }, ?_, hdone _, rfl⟩
    simp [Shared.step, Action.caller, hp, State.perform, State.awaitResume, hat, hr, hc, State.check]
  · refine ⟨(s.fetch res).setAwaiter p { aw with checker := aw.checker.set .done }, ?_, hdone _,
      rfl⟩
    simp [Shared.step, Action.caller, hp, State.perform, State.awaitResume, hat, hr, hc, State.check]

theorem completes_of_told (ho : Orderly s) {p : ℕ} {aw : Awaiter}
    (hp : s.awaiters.lookup p = some aw)
    (hst : aw.checker.state = .ready ∨ aw.checker.state = .readyImmediately) :
    Completes cas s p := by
  intro res
  obtain ⟨t, h, hdone, hres⟩ := ho.exists_awaitResume cas hp hst res
  exact ⟨[.awaitResume p res], t, by simp, (exec_cons_ok h).trans (exec_nil t), hdone, hres⟩

/-- When the wrapped awaiter has ended, the loop of `invoke()` has the parents that still wait. -/
theorem Orderly.exists_invoke (ho : Orderly s) (hrun : s.wrapped.running = false) {p : ℕ}
    (hp : p ∈ s.waiting) : ∃ q qs below, s.stack = .invoke (q :: qs) :: below := by
  have hnil := ho.parents.2 hrun
  have hst := ho.staged
  rw [State.waiting, hnil, List.nil_append] at hp
  unfold Staged at hst
  split at hst
  · rename_i h
    rw [h] at hp
    cases hp
  · rename_i h
    rw [h] at hp
    cases hp
  · rename_i ps h
    cases ps with
    | nil => rw [h] at hp; cases hp
    | cons q qs => exact ⟨q, qs, [], h⟩
  · rename_i ps h
    cases ps with
    | nil => rw [h] at hp; cases hp
    | cons q qs => exact ⟨q, qs, _, h⟩
  · exact hst.elim

/-- The loop of `invoke()` wakes up one more parent. -/
theorem Orderly.exists_next (cas : Bool) (ho : Orderly s) (hrun : s.wrapped.running = false) {p : ℕ}
    (hp : s.isIn p .running) :
    ∃ t, Shared.step cas s .next = .ok t ∧ Orderly t ∧ t.wrapped = s.wrapped ∧ t.result = s.result ∧
      (t.isIn p .running ∨ t.isIn p .ready) ∧ t.waiting.length < s.waiting.length := by
  obtain ⟨q, qs, below, hst⟩ := ho.exists_invoke hrun ((ho.waiting p).2 hp)
  obtain ⟨aw, hq, hwait⟩ := (ho.waiting q).1 (by simp [State.waiting, hst, Frame.parents])
  obtain ⟨aw', hp', hrun'⟩ := hp
  refine ⟨_, ?_, ho.wakeUp hst hq, rfl, rfl, ?_, ?_⟩
  · simp [Shared.step, Action.caller, State.internal, hst, hq, Checker.resumed, hwait, State.check]
  · simp only [State.isIn, State.setAwaiter, State.record, lookup_insert_eq]
    split_ifs with h
    · exact Or.inr ⟨_, rfl, rfl⟩
    · exact Or.inl ⟨aw', hp', hrun'⟩
  · simp [State.waiting, State.setAwaiter, State.record, hst, Frame.parents]

theorem completes_of_waiting (ho : Orderly s) (hrun : s.wrapped.running = false) {p : ℕ}
    (hp : s.isIn p .running) : Completes cas s p := by
  -- The loop goes on until it has woken up `p`.
  have hwoken : ∃ as u, (∀ a ∈ as, a = .next) ∧ exec (step cas) s as = .ok u ∧
      Orderly u ∧ u.result = s.result ∧ u.isIn p .ready := by
    refine exists_run (I := fun u => Orderly u ∧ u.wrapped = s.wrapped ∧ u.result = s.result ∧
      (u.isIn p .running ∨ u.isIn p .ready)) (μ := fun u => u.waiting.length)
      ⟨ho, rfl, rfl, Or.inl hp⟩ ?_
    rintro u ⟨hu, hw, hres, hst⟩ hnot
    have hwait : u.isIn p .running := hst.resolve_right fun h => hnot ⟨hu, hres, h⟩
    obtain ⟨t, h, ht, hw', hres', hst', hlt⟩ := hu.exists_next cas (by rw [hw, hrun]) hwait
    exact ⟨.next, t, rfl, h, ⟨ht, hw'.trans hw, hres'.trans hres, hst'⟩, hlt⟩
  intro res
  obtain ⟨as, u, has, hu, ho', hres, aw, hp', hst⟩ := hwoken
  obtain ⟨t, h, hdone, hres'⟩ := ho'.exists_awaitResume cas hp' (Or.inl hst) res
  refine ⟨as ++ [.awaitResume p res], t, fun a ha => ?_, exec_concat hu h, hdone, ?_⟩
  · rcases List.mem_append.1 ha with ha | ha
    · exact Or.inl (has a ha)
    · exact Or.inr (List.mem_singleton.1 ha)
  · rw [hres', State.fetch, State.fetch, hres]
    cases s.result <;> first | rfl | exact hres

/-- A parent that arrives when the end of the operation can be told is told so. -/
theorem completes_of_arriving (ho : Orderly s) (hend : s.wrapped.ended = true)
    (hdec : s.undecided = false) {p : ℕ} {aw : Awaiter} (hp : s.awaiters.lookup p = some aw)
    (hst : aw.checker.state = .initial ∨ aw.checker.state = .notReady) :
    ∃ t, step cas s (.awaitReady p) = .ok t ∧ Completes cas t p := by
  have hnil : s.parents = [] := ho.parents.2 (by simp [Wrapped.ended] at hend; exact hend.2)
  have hready : s.ready = true := by
    cases hr : s.result with
    | incomplete => simpa [State.undecided, State.ready, hr, hnil, hend] using hdec
    | _ => simp [State.ready, hr]
  have hc : aw.checker.readyReturned true = some (aw.checker.set .readyImmediately) := by
    rcases hst with h | h <;> simp [Checker.readyReturned, h]
  have hstep : step cas s (.awaitReady p) = .ok ((s.record (.resumes p)).setAwaiter p
      { aw with checker := aw.checker.set .readyImmediately }) := by
    simp [Shared.step, Action.caller, hp, State.perform, hready, hc, State.check]
  have ho' := (ho.step (a := .awaitReady p) hdec hstep).1
  have hlook : ((s.record (.resumes p)).setAwaiter p
      { aw with checker := aw.checker.set .readyImmediately }).awaiters.lookup p =
      some { aw with checker := aw.checker.set .readyImmediately } := by
    rw [State.setAwaiter, lookup_insert_eq, if_pos rfl]
  exact ⟨_, hstep, completes_of_told ho' hlook (Or.inr rfl)⟩

/-! ### The result -/

/-- A parent that suspends after the end starts the wrapped awaiter once more. -/
theorem starts_of_ended (ho : Orderly s) (hend : s.wrapped.ended = true) (p : ℕ) :
    starts (s, .awaitSuspend p) = true := by
  have hrun : s.wrapped.running = false := by simp [Wrapped.ended] at hend; exact hend.2
  simp [starts, ho.parents.2 hrun]

/-- A parent that arrives when the end of the operation cannot be told is told to wait for it. -/
theorem notReady_of_undecided (ho : Orderly s) (hund : s.undecided = true) {p : ℕ}
    (h : step cas s (.awaitReady p) = .ok t) : t.isIn p .notReady := by
  have hready : s.ready = false := by
    cases hr : s.result with
    | incomplete =>
      have hnot : s.wrapped.ready = false := by simp [State.undecided, hr] at hund; exact hund.2
      simp [State.ready, hr, hnot]
    | _ => simp [State.undecided, hr] at hund
  simp only [Shared.step, Action.caller] at h
  split at h
  · rename_i aw hp
    obtain ⟨hat, hst⟩ := ho.awaiters p aw hp
    simp only [State.perform, hat, hready, Bool.not_true, Bool.or_self, Bool.false_eq_true,
      if_false] at h
    obtain ⟨c', hc', rfl⟩ := check_eq_ok h
    refine ⟨_, by rw [State.setAwaiter, lookup_insert_eq, if_pos rfl], ?_⟩
    exact readyReturned_false hst hc'
  · cases h

/-- In every punctual run the wrapped awaiter is started at most once; and when it has ended, every
parent that has been waiting completes with no further help of it, and so does every parent that
arrives then.  The first step of a run without cancellations that is not punctual starts the wrapped
awaiter a second time, or tells a parent to wait for an operation that has ended. -/
theorem completes_once {l : List (State V Err × Action V Err)}
    (hr : Run (step cas) Punctual (.init : State V Err) l s) :
    l.countP starts ≤ 1 ∧
    (s.wrapped.ended = true → ∀ p,
      (s.isIn p .running ∨ s.isIn p .ready ∨ s.isIn p .readyImmediately → Completes cas s p) ∧
      (s.isIn p .initial ∨ s.isIn p .notReady → Punctual s (.awaitReady p) →
        ∃ t, step cas s (.awaitReady p) = .ok t ∧ Completes cas t p)) ∧
    ∀ a t, Uncancelled s a → ¬ Punctual s a → step cas s a = .ok t →
      2 ≤ (l ++ [(s, a)]).countP starts ∨ ∃ p, a = .awaitReady p ∧ t.isIn p .notReady := by
  obtain ⟨ho, hcount⟩ := orderly_of_run hr
  refine ⟨by rw [hcount]; split_ifs <;> omega, fun hend p => ⟨?_, ?_⟩, fun a t hun hnot h => ?_⟩
  · have hrun : s.wrapped.running = false := by simp [Wrapped.ended] at hend; exact hend.2
    rintro (hst | ⟨aw, hp, hst⟩ | ⟨aw, hp, hst⟩)
    · exact completes_of_waiting ho hrun hst
    · exact completes_of_told ho hp (Or.inl hst)
    · exact completes_of_told ho hp (Or.inr hst)
  · rintro (⟨aw, hp, hst⟩ | ⟨aw, hp, hst⟩) hdec
    · exact completes_of_arriving ho hend hdec hp (Or.inl hst)
    · exact completes_of_arriving ho hend hdec hp (Or.inr hst)
  · cases a with
    | awaitReady p =>
      exact Or.inr ⟨p, rfl, notReady_of_undecided ho (by simpa [Punctual] using hnot) h⟩
    | awaitSuspend p =>
      have hend : s.wrapped.ended = true := by simpa [Punctual] using hnot
      have hstart : s.wrapped.started = true := by
        simp [Wrapped.ended] at hend
        exact hend.1
      left
      rw [List.countP_append, List.countP_singleton, hcount, if_pos hstart,
        if_pos (starts_of_ended ho hend p)]
    | awaitEarlyCancel | awaitCancel => exact hun.elim
    | newAwaiter | awaitMustResume | awaitResume | drop | becomesReady | resumes | suspendReturns
      | suspendThrows | cancelReturns | next => exact absurd trivial hnot

/-- A parent waits, the wrapped awaiter becomes ready and resumes the handle, and another parent
arrives before the first one has been woken up. -/
def arrivesInBetween : List (Action ℕ ℕ) :=
  [.newAwaiter false, .awaitReady 0, .awaitSuspend 0, .suspendReturns, .becomesReady, .resumes true,
    .newAwaiter false]

theorem completes_once_arrivesInBetween :
    ∃ s, exec (step false) (.init : State ℕ ℕ) arrivesInBetween = .ok s ∧ s.isIn 0 .running ∧
      Completes false s 0 ∧ ∃ t, step false s (.awaitReady 1) = .ok t ∧ Completes false t 1 := by
  have hm : Meets (step false) Punctual (.init : State ℕ ℕ) arrivesInBetween := by decide
  have hrun : ∃ s, exec (step false) (.init : State ℕ ℕ) arrivesInBetween = .ok s ∧
      s.isIn 0 .running ∧ s.isIn 1 .initial ∧ s.wrapped.ended = true ∧
      Punctual s (.awaitReady 1) := ⟨_, rfl, ⟨_, rfl, rfl⟩, ⟨_, rfl, rfl⟩, rfl, rfl⟩
  obtain ⟨s, he, h0, h1, hend, hok⟩ := hrun
  have hall := (completes_once (run_of_exec hm he)).2.1 hend
  exact ⟨s, he, h0, (hall 0).1 (Or.inl h0), (hall 1).2 (Or.inl h1) hok⟩

/-- The same with a wrapped awaiter whose `await_ready()` does not become true. -/
def arrivesTooEarly : List (Action ℕ ℕ) :=
  [.newAwaiter false, .awaitReady 0, .awaitSuspend 0, .suspendReturns, .resumes true, .next, .next,
    .newAwaiter false, .awaitReady 1, .awaitSuspend 1]

/-- So the wrapped awaiter can be started a second time, although it has completed. -/
theorem not_completes_once :
    ¬ ∀ (l : List (State ℕ ℕ × Action ℕ ℕ)) (s : State ℕ ℕ),
      Run (step false) Uncancelled .init l s → l.countP starts ≤ 1 := by
  intro h
  have hm : Meets (step false) Uncancelled (.init : State ℕ ℕ) arrivesTooEarly := by decide
  have hrun : ∃ s, exec (step false) (.init : State ℕ ℕ) arrivesTooEarly = .ok s := ⟨_, rfl⟩
  obtain ⟨s, he⟩ := hrun
  have hone := h _ s (run_of_exec hm he)
  have htwo : (history (step false) (.init : State ℕ ℕ) arrivesTooEarly).countP starts = 2 := by
    decide
  omega

end Corral.Shared
