import Corral.Shared.Model

/-!
# A shared operation whose first parent is cancelled early

If the wrapped awaiter refuses to be cancelled early, the first parent goes on as usual, with
`result_` in `CancelPending`.  But `ready()` returns true for every `result_` other than
`Incomplete`.  So a parent that asks `await_ready()` then is told that it need not suspend, and
takes the result of an operation that has never been started.

* `Sound`: what has to have happened to the wrapped awaiter before a call;
* `Unasked`: the condition of the runs in question, nobody asks `await_ready()` in `CancelPending`
  before the wrapped awaiter has been started or is ready;
* `Inv`: the invariant of such runs;
* `resumed_only_if_started`: so all calls are sound.
-/

namespace Corral.Shared

open ActionMachine Registry AwaiterStateChecker

variable {V Err : Type*} {cas : Bool} {s t : State V Err}

/-- The wrapped awaiter's `await_must_resume()` and `await_resume()` are called only after it has
become ready or resumed its handle; if it has refused to be cancelled early, a parent is resumed
only after it has been started or is ready; and so is a success reported. -/
def Sound : Call × Wrapped → Prop
  | (.mustResume, w) => w.ready = true ∨ w.completed = true
  | (.awaitResume, w) => w.ready = true ∨ w.completed = true
  | (.resumes _, w) => w.refused = true → w.started = true ∨ w.ready = true
  | (.succeeds _, w) => w.started = true ∨ w.ready = true

/-- Nobody asks `await_ready()` in `CancelPending` before the wrapped awaiter has been started or is
ready. -/
def Unasked (s : State V Err) : Action V Err → Prop
  | .awaitReady _ => match s.result with
    | .cancelPending => s.wrapped.started = true ∨ s.wrapped.ready = true
    | _ => True
  | _ => True

instance (s : State V Err) (a : Action V Err) : Decidable (Unasked s a) := by
  unfold Unasked
  split
  · split <;> infer_instance
  · infer_instance

/-- `Incomplete` or `CancelPending`: the result has still to be fetched. -/
def Result.unfetched : Result V Err → Bool
  | .incomplete => true
  | .cancelPending => true
  | _ => false

theorem Result.onSuspend_ne_cancelPending (r : Result V Err) : r.onSuspend ≠ .cancelPending := by
  cases r <;> simp [Result.onSuspend]

theorem Result.unfetched_of_onSuspend {r : Result V Err} (h : r.onSuspend.unfetched = true) :
    r.unfetched = true := by
  cases r <;> first | rfl | cases h

/-- Some parent takes the operation to be over, or is about to be told so. -/
def Announced (s : State V Err) : Prop :=
  (∃ p aw, s.awaiters.lookup p = some aw ∧ aw.checker.state.told = true) ∨
  ∃ ps, Frame.invoke ps ∈ s.stack

/-- The wrapped awaiter is over. -/
def Wrapped.over (w : Wrapped) : Prop := w.ready = true ∨ w.completed = true

/-- The wrapped awaiter has been started or is ready. -/
def Wrapped.begun (w : Wrapped) : Prop := w.started = true ∨ w.ready = true

/-- The invariant. -/
structure Inv (s : State V Err) : Prop where
  parents : s.parents ≠ [] → s.wrapped.started = true
  running : s.wrapped.running = true → s.wrapped.started = true
  completed : s.wrapped.completed = true → s.wrapped.started = true
  pending : s.result = .cancelPending → s.parents = [] ∧ s.wrapped.refused = true
  fetched : s.result.unfetched = false → s.result ≠ .cancelled → s.wrapped.begun
  refused : s.wrapped.refused = true → s.result = .cancelPending ∨ s.wrapped.begun
  stack : ∀ f ∈ s.stack, s.wrapped.started = true
  left : s.result.unfetched = true → s.parents = [] → s.wrapped.started = true → s.wrapped.over
  announced : s.result.unfetched = true → Announced s → s.wrapped.over
  detached : ∀ p aw, s.awaiters.lookup p = some aw → aw.attached = false →
    aw.checker.state = .cancelled
  log : ∀ e ∈ s.log, Sound e

theorem inv_init : Inv (State.init : State V Err) := by
  refine ⟨?_, ?_, ?_, ?_, ?_, ?_, ?_, ?_, ?_, ?_, ?_⟩ <;>
    simp [State.init, Result.unfetched, Announced]

theorem Inv.begun_of_over (hi : Inv s) (h : s.wrapped.over) : s.wrapped.begun :=
  h.elim Or.inr fun hc => Or.inl (hi.completed hc)

/-- What a parent that takes the operation to be over knows. -/
theorem Inv.over_of_told {p : ℕ} {aw : Awaiter} (hi : Inv s) (hp : s.awaiters.lookup p = some aw)
    (htold : aw.checker.state.told = true) (hu : s.result.unfetched = true) : s.wrapped.over :=
  hi.announced hu (Or.inl ⟨p, aw, hp, htold⟩)

/-! ### Awaiters, the log and the calls in progress -/

/-- A parent that is told that the operation is over is told the truth. -/
theorem Inv.setAwaiter {p : ℕ} {aw : Awaiter} (hi : Inv s)
    (hdet : aw.attached = false → aw.checker.state = .cancelled)
    (haw : aw.checker.state.told = true → s.result.unfetched = true → s.wrapped.over) :
    Inv (s.setAwaiter p aw) := by
  have hlook : ∀ q aw', (s.setAwaiter p aw).awaiters.lookup q = some aw' →
      aw' = aw ∨ s.awaiters.lookup q = some aw' := by
    intro q aw' hq
    simp only [State.setAwaiter, lookup_insert_eq] at hq
    split_ifs at hq
    · exact Or.inl (Option.some.inj hq).symm
    · exact Or.inr hq
  refine { hi with announced := ?_, detached := ?_ }
  · rintro hu (⟨q, aw', hq, htold⟩ | hframe)
    · rcases hlook q aw' hq with rfl | hq'
      · exact haw htold hu
      · exact hi.over_of_told hq' htold hu
    · exact hi.announced hu (Or.inr hframe)
  · intro q aw' hq
    rcases hlook q aw' hq with rfl | hq'
    · exact hdet
    · exact hi.detached q aw' hq'

theorem Inv.record {c : Call} (hi : Inv s) (hc : Sound (c, s.wrapped)) : Inv (s.record c) := by
  refine { hi with log := ?_, announced := hi.announced }
  intro e he
  rcases List.mem_append.1 he with he | he
  · exact hi.log e he
  · cases List.mem_singleton.1 he
    exact hc

theorem check_eq_ok {p : ℕ} {aw : Awaiter} {c : Option Checker} (h : s.check p aw c = .ok t) :
    ∃ c', c = some c' ∧ t = s.setAwaiter p { aw with checker := c' } := by
  unfold State.check at h
  split at h
  · cases h
    exact ⟨_, rfl, rfl⟩
  · cases h

/-- A parent that has been cancelled goes away. -/
theorem Inv.check_cancelled {p : ℕ} {aw : Awaiter} {c : Option Checker} (hi : Inv s)
    (hc : ∀ c', c = some c' → c'.state = .cancelled) (h : s.check p aw c = .ok t) : Inv t := by
  obtain ⟨c', hc', rfl⟩ := check_eq_ok h
  refine hi.setAwaiter (fun _ => hc c' hc') fun htold => ?_
  have hnot : State.told .cancelled = true := (hc c' hc') ▸ htold
  cases hnot

/-- Other calls come and go. -/
theorem Inv.restack {st : List Frame} (hi : Inv s) (hst : st ≠ [] → s.wrapped.started = true)
    (hinv : ∀ ps, .invoke ps ∈ st → ∃ qs, Frame.invoke qs ∈ s.stack) :
    Inv { s with stack := st } := by
  refine { hi with stack := fun f hf => hst (List.ne_nil_of_mem hf), announced := ?_ }
  rintro hu (htold | ⟨ps, hps⟩)
  · exact hi.announced hu (Or.inl htold)
  · exact hi.announced hu (Or.inr (hinv ps hps))

theorem Inv.pop {f : Frame} {below : List Frame} (hi : Inv s) (hst : s.stack = f :: below) :
    Inv { s with stack := below } := by
  refine hi.restack (fun _ => hi.stack f (by rw [hst]; exact List.mem_cons_self)) fun ps hps => ?_
  exact ⟨ps, by rw [hst]; exact List.mem_cons_of_mem _ hps⟩

theorem mem_map_unlink {p : ℕ} {ps : List ℕ} {st : List Frame}
    (h : .invoke ps ∈ st.map (Frame.unlink p)) : ∃ qs, Frame.invoke qs ∈ st := by
  obtain ⟨f, hf, hps⟩ := List.mem_map.1 h
  cases f with
  | invoke qs => exact ⟨qs, hf⟩
  | awaitSuspend => cases hps
  | awaitCancel q => cases hps

/-- A parent is taken off the list, but not as the last one while the result is still to be
fetched. -/
theorem Inv.unlink {p : ℕ} (hi : Inv s)
    (hlen : s.result.unfetched = true → s.parents.length ≠ 1) : Inv (s.unlink p) := by
  have hsub : s.parents = [] → s.parents.erase p = [] := fun h => by rw [h]; rfl
  have hst : Inv { s with stack := s.stack.map (Frame.unlink p) } := by
    refine hi.restack (fun hne => ?_) fun ps hps => mem_map_unlink hps
    obtain ⟨f, hf⟩ := List.exists_mem_of_ne_nil s.stack (by simpa using hne)
    exact hi.stack f hf
  refine { hst with parents := ?_, pending := ?_, left := ?_, announced := hst.announced }
  · exact fun hne => hi.parents fun h => hne (hsub h)
  · exact fun hr => ⟨hsub (hi.pending hr).1, (hi.pending hr).2⟩
  · intro hu hnil
    refine hi.left hu ?_
    rcases List.erase_eq_nil_iff.1 hnil with h | h
    · exact h
    · exact absurd (by rw [h]; rfl) (hlen hu)

/-! ### The result and the wrapped awaiter -/

/-- The result is settled. -/
theorem Inv.settle {r : Result V Err} (hi : Inv s) (hr : r.unfetched = false)
    (hb : r ≠ .cancelled → s.wrapped.begun) (href : s.wrapped.refused = true → s.wrapped.begun) :
    Inv (s.setResult r) := by
  have hnot : ∀ {P : Prop}, r.unfetched = true → P := fun hu => by rw [hr] at hu; cases hu
  refine { hi with pending := ?_, fetched := ?_, refused := ?_, left := ?_, announced := ?_ }
  · rintro rfl
    cases hr
  · exact fun _ hne => hb hne
  · exact fun h => Or.inr (href h)
  · exact fun hu => hnot hu
  · exact fun hu => hnot hu

/-- The wrapped awaiter stops running. -/
theorem Inv.stop (hi : Inv s) : Inv (s.setWrapped { s.wrapped with running := false }) :=
  { hi with running := fun h => Bool.noConfusion h, announced := hi.announced }

/-- The wrapped awaiter becomes ready, or resumes its handle. -/
theorem Inv.overNow {w : Wrapped} (hi : Inv s) (hover : w.over)
    (hst : w.started = s.wrapped.started) (href : w.refused = s.wrapped.refused)
    (hrun : w.running = true → s.wrapped.running = true)
    (hcom : w.completed = true → s.wrapped.started = true) : Inv (s.setWrapped w) := by
  have hbegun : w.begun := hover.elim Or.inr fun hc => Or.inl (hst.trans (hcom hc))
  refine { hi with
    parents := fun hne => hst.trans (hi.parents hne)
    running := fun h => hst.trans (hi.running (hrun h))
    completed := fun h => hst.trans (hcom h)
    pending := fun hr => ⟨(hi.pending hr).1, href.trans (hi.pending hr).2⟩
    fetched := fun _ _ => hbegun
    refused := fun _ => Or.inr hbegun
    stack := fun f hf => hst.trans (hi.stack f hf)
    left := fun _ _ _ => hover
    announced := fun _ _ => hover }

/-- `suspend()` of the first parent starts the wrapped awaiter. -/
theorem Inv.start {p : ℕ} (hi : Inv s) :
    Inv ((({ s with parents := s.parents ++ [p] }.setResult s.result.onSuspend).setWrapped
      { s.wrapped with started := true, running := true }).enter .awaitSuspend) := by
  have hb : ∀ {w : Wrapped}, w.started = true → w.begun := Or.inl
  refine { hi with
    parents := fun _ => rfl
    running := fun _ => rfl
    completed := fun _ => rfl
    pending := fun hr => ?_
    fetched := fun _ _ => hb rfl
    refused := fun _ => Or.inr (hb rfl)
    stack := fun _ _ => rfl
    left := fun _ hnil => absurd hnil (List.append_ne_nil_of_right_ne_nil _ (by simp))
    announced := fun hu ha => ?_ }
  · exact absurd hr (Result.onSuspend_ne_cancelPending _)
  · refine hi.announced (Result.unfetched_of_onSuspend hu) ?_
    rcases ha with htold | ⟨ps, hps⟩
    · exact Or.inl htold
    · exact Or.inr ⟨ps, (List.mem_cons.1 hps).resolve_left (by simp)⟩

/-- `invoke()` takes the parents off the list to wake them up. -/
theorem Inv.invoke {must : Bool} (hi : Inv s) (hst : s.wrapped.started = true)
    (hover : s.result.unfetched = true ∨ s.result = .cancelling → s.wrapped.over) :
    Inv (s.invoke must) := by
  -- Once the wrapped awaiter is over, the parents may be told so.
  have hmove : ∀ u : State V Err, Inv u → u.wrapped = s.wrapped →
      (u.result.unfetched = true → u.wrapped.over) →
      Inv ({ u with parents := [] }.enter (.invoke s.parents)) := by
    intro u hu hw hov
    have hst' : u.wrapped.started = true := by rw [hw]; exact hst
    exact { hu with
      parents := fun hne => absurd rfl hne
      pending := fun hr => ⟨rfl, (hu.pending hr).2⟩
      stack := fun _ _ => hst'
      left := fun hf _ _ => hov hf
      announced := fun hf _ => hov hf }
  unfold State.invoke
  split
  · rename_i hr
    have hov := hover (Or.inr hr)
    have hrec : Inv (s.record .mustResume) := hi.record hov
    refine hmove _ ?_ rfl fun _ => hov
    cases must with
    | true =>
      exact { hrec with
        pending := fun hc => (by cases hc)
        fetched := fun hc => (by cases hc)
        refused := fun _ => Or.inr (Or.inl hst)
        left := fun _ _ _ => hov
        announced := fun _ _ => hov }
    | false =>
      exact hrec.settle rfl (fun hne => absurd rfl hne) fun _ => Or.inl hst
  · exact hmove s hi rfl fun hu => hover (Or.inl hu)

/-! ### The calls of a parent -/

section Calls

variable {p : ℕ} {aw : Awaiter}

/-- A call that tells the parent nothing new. -/
theorem Inv.check_same {aw' : Awaiter} {c : Option Checker} (hi : Inv s)
    (hp : s.awaiters.lookup p = some aw) (hatt : aw'.attached = true)
    (hc : ∀ c', c = some c' → c'.state.told = true → aw.checker.state.told = true)
    (h : s.check p aw' c = .ok t) : Inv t := by
  obtain ⟨c', hc', rfl⟩ := check_eq_ok h
  refine hi.setAwaiter (fun hdet => ?_) fun htold => hi.over_of_told hp (hc c' hc' htold)
  exact absurd hdet (by simp [hatt])

theorem Inv.awaitReady (hi : Inv s) (hp : s.awaiters.lookup p = some aw)
    (hok : Unasked s (.awaitReady p)) (h : s.perform cas p aw (.awaitReady p) = .ok t) : Inv t := by
  simp only [State.perform] at h
  cases hatt : aw.attached with
  | false =>
    obtain ⟨c', hc', -⟩ := check_eq_ok h
    rw [readyReturned_of_cancelled (hi.detached p aw hp hatt)] at hc'
    cases hc'
  | true =>
    rw [hatt, Bool.not_true, Bool.false_or] at h
    cases hready : s.ready with
    | false =>
      rw [hready] at h
      refine hi.check_same hp hatt (fun c' hc' htold => ?_) h
      cases told_of_readyReturned hc' htold
    | true =>
      rw [hready, if_pos rfl] at h
      -- The condition of the run is needed here, and only here.
      have hsound : Sound (.resumes p, s.wrapped) := by
        intro href
        rcases hi.refused href with hpend | hbegun
        · simpa only [Unasked, hpend] using hok
        · exact hbegun
      have hover : s.result.unfetched = true → s.wrapped.over := by
        intro hu
        cases hr : s.result with
        | incomplete =>
          simp only [State.ready, hr, Bool.and_eq_true] at hready
          exact Or.inl hready.2
        | cancelPending =>
          simp only [Unasked, hr] at hok
          rcases hok with hst | hrd
          · exact hi.left hu (hi.pending hr).1 hst
          · exact Or.inl hrd
        | value v => rw [hr] at hu; cases hu
        | exception e => rw [hr] at hu; cases hu
        | cancelling => rw [hr] at hu; cases hu
        | cancelled => rw [hr] at hu; cases hu
      obtain ⟨c', -, rfl⟩ := check_eq_ok h
      exact (hi.record hsound).setAwaiter (fun hdet => absurd hdet (by simp [hatt]))
        fun _ => hover

theorem Inv.earlyCancel {done : Bool} (hi : Inv s) (hp : s.awaiters.lookup p = some aw)
    (h : s.earlyCancel p aw done = .ok t) : Inv t := by
  unfold State.earlyCancel at h
  simp only at h
  split at h
  · rename_i hatt hnil hr
    have hleft : s.wrapped.started = true → s.wrapped.over :=
      hi.left (by rw [hr]; rfl) hnil
    split_ifs at h with hd
    · have hset : Inv (s.setResult .cancelled) := by
        refine hi.settle rfl (fun hne => absurd rfl hne) fun href => ?_
        refine (hi.refused href).resolve_left ?_
        rw [hr]
        simp
      exact hset.check_cancelled (fun c' hc' => cancelled_of_earlyCancelReturned hc') h
    · have hset : Inv ((s.setResult .cancelPending).setWrapped
          { s.wrapped with refused := true }) := { hi with
        pending := fun _ => ⟨hnil, rfl⟩
        fetched := fun hu => Bool.noConfusion hu
        refused := fun _ => Or.inl rfl
        left := fun _ _ => hleft
        announced := fun _ => hi.announced (by rw [hr]; rfl) }
      exact hset.check_same hp hatt (fun c' hc' => told_of_earlyCancelReturned hc') h
  · exact hi.check_cancelled (fun c' hc' => cancelled_of_earlyCancelReturned hc') h

theorem Inv.suspend (hi : Inv s) (h : s.suspend p aw = .ok t) : Inv t := by
  unfold State.suspend at h
  split at h
  · rename_i c hatt hc
    -- A parent that suspends has not been told that the operation is over.
    have htold : c.state.told = false := by
      obtain ⟨c₁, -, hc₁⟩ := Option.bind_eq_some_iff.1 hc
      exact not_told_of_aboutToSuspend hc₁
    have hset : ∀ u : State V Err, Inv u → Inv (u.setAwaiter p { aw with checker := c }) :=
      fun u hu => hu.setAwaiter (fun hdet => absurd hdet (by simp [hatt]))
        fun ht => absurd ht (by simp [htold])
    split_ifs at h with hnil
    · cases h
      exact (hset s hi).start
    · cases h
      refine hset { s with parents := s.parents ++ [p] } ?_
      have hst := hi.parents hnil
      exact { hi with
        parents := fun _ => hst
        pending := fun hr => absurd (hi.pending hr).1 hnil
        left := fun _ hnil' => absurd hnil' (by simp)
        announced := hi.announced }
  · cases h
  · cases h

theorem Inv.cancel (hi : Inv s) (h : s.cancel p aw = .ok t) : Inv t := by
  unfold State.cancel at h
  split at h
  · cases h
  · rename_i c hc
    split_ifs at h with hatt hlen hone
    · exact hi.check_cancelled (fun c' hc' => cancelled_of_cancelReturned hc') h
    · cases h
      have hst : s.wrapped.started = true := hi.parents (by rw [hone]; exact List.cons_ne_nil _ _)
      have hres : Inv (s.setResult .cancelling) :=
        hi.settle rfl (fun _ => Or.inl hst) fun _ => Or.inl hst
      have haw : Inv ((s.setResult .cancelling).setAwaiter p { aw with checker := c }) := by
        refine hres.setAwaiter (fun hdet => absurd hdet (by simpa using hatt)) fun ht => ?_
        exact absurd ht (by simp [not_told_of_aboutToCancel hc])
      refine haw.restack (fun _ => hst) fun ps hps => ?_
      exact ⟨ps, (List.mem_cons.1 hps).resolve_left (by simp)⟩
    · refine Inv.check_cancelled (hi.unlink fun _ => hlen)
        (fun c' hc' => cancelled_of_cancelReturned hc') h

theorem Inv.cancelReturns {done : Bool} (hi : Inv s) (hp : s.awaiters.lookup p = some aw)
    (h : s.cancelReturns p aw done = .ok t) : Inv t := by
  unfold State.cancelReturns at h
  split_ifs at h with hd hrun
  · have hst := hi.running hrun
    have hset : Inv ((s.setResult .cancelled).setWrapped { s.wrapped with running := false }) :=
      (hi.settle rfl (fun hne => absurd rfl hne) fun _ => Or.inl hst).stop
    exact (hset.unlink fun hu => Bool.noConfusion hu).check_cancelled
      (fun c' hc' => cancelled_of_cancelReturned hc') h
  · obtain ⟨c', hc', rfl⟩ := check_eq_ok h
    refine hi.setAwaiter (fun hdet => ?_) fun htold => ?_
    · cases hc'
      exact hi.detached p aw hp hdet
    · exact hi.over_of_told hp (told_of_cancelReturned hc' htold)

/-- Only a parent that takes the operation to be over asks `mustResume()`. -/
theorem Inv.askMustResume (hi : Inv s) (hp : s.awaiters.lookup p = some aw)
    (htold : aw.checker.state.told = true) (must : Bool) :
    Inv (s.askMustResume must).2 ∧ (s.askMustResume must).2.awaiters = s.awaiters ∧
    ((s.askMustResume must).1 = true → (s.askMustResume must).2.wrapped.begun) := by
  have hover := hi.over_of_told hp htold
  have hbegun : s.result ≠ .cancelled → s.wrapped.begun := by
    intro hne
    cases hu : s.result.unfetched with
    | true => exact hi.begun_of_over (hover hu)
    | false => exact hi.fetched hu hne
  unfold State.askMustResume
  split
  · rename_i hr
    exact ⟨hi.record (hover (by rw [hr]; rfl)), rfl, fun _ => hbegun (by rw [hr]; simp)⟩
  · exact ⟨hi, rfl, fun h => Bool.noConfusion h⟩
  · rename_i hne
    exact ⟨hi, rfl, fun _ => hbegun hne⟩

theorem Inv.mustResume {must : Bool} (hi : Inv s) (hp : s.awaiters.lookup p = some aw)
    (h : s.mustResume cas p aw must = .ok t) : Inv t := by
  unfold State.mustResume at h
  split at h
  · rename_i hatt
    obtain ⟨c', hc', -⟩ := check_eq_ok h
    have htold := told_of_mustResumeReturned hc'
    rw [hi.detached p aw hp hatt] at htold
    cases htold
  · rename_i hatt
    simp only at h
    split at h
    · cases h
    · obtain ⟨c', hc', -⟩ := check_eq_ok h
      have htold := told_of_mustResumeReturned hc'
      obtain ⟨hask, haws, hbegun⟩ := hi.askMustResume hp htold must
      have hsame : ∀ c', aw.checker.mustResumeReturned (s.askMustResume must).1 = some c' →
          c'.state.told = true → aw.checker.state.told = true := fun _ _ _ => htold
      split_ifs at h with hret
      · exact (hask.record (c := .succeeds p) (hbegun hret)).check_same (by rw [← hp, ← haws]; rfl)
          (by simpa using hatt) hsame h
      · exact hask.check_same (by rw [haws]; exact hp) (by simpa using hatt) hsame h

/-- Only a parent that takes the operation to be over asks `resultAs()`. -/
theorem Inv.fetch (hi : Inv s) (hp : s.awaiters.lookup p = some aw)
    (htold : aw.checker.state.told = true) (res : Except Err V) : Inv (s.fetch res) := by
  have hfetch : ∀ r : Result V Err, r.unfetched = false → s.result.unfetched = true →
      Inv ((s.record .awaitResume).setResult r) := by
    intro r hr hu
    have hover := hi.over_of_told hp htold hu
    exact (hi.record (c := .awaitResume) hover).settle hr (fun _ => hi.begun_of_over hover)
      fun _ => hi.begun_of_over hover
  have hres : (Result.ofResume res).unfetched = false := by
    cases res <;> rfl
  unfold State.fetch
  simp only
  split
  · rename_i hr
    exact hfetch _ hres (by rw [hr]; rfl)
  · rename_i hr
    exact hfetch _ hres (by rw [hr]; rfl)
  · exact hi

theorem fetch_awaiters (s : State V Err) (res : Except Err V) :
    (s.fetch res).awaiters = s.awaiters := by
  unfold State.fetch
  simp only
  split <;> rfl

theorem Inv.awaitResume {res : Except Err V} (hi : Inv s) (hp : s.awaiters.lookup p = some aw)
    (h : s.awaitResume p aw res = .ok t) : Inv t := by
  unfold State.awaitResume at h
  split at h
  · cases h
  · rename_i hatt
    have hatt' : aw.attached = true := by simpa using hatt
    have hdone : ∀ u : State V Err, u.awaiters = s.awaiters →
        (aw.checker.state.told = true → Inv u) →
        u.check p aw aw.checker.aboutToResume = .ok t → Inv t := by
      intro u haws hu hcheck
      obtain ⟨c', hc', -⟩ := check_eq_ok hcheck
      have htold := told_of_aboutToResume hc'
      exact (hu htold).check_same (by rw [haws]; exact hp) hatt' (fun _ _ _ => htold) hcheck
    have haws := fetch_awaiters s res
    simp only at h
    split at h
    · rename_i v hv
      refine hdone _ ?_ (fun htold => ?_) h
      · exact haws
      · have hf := hi.fetch hp htold res
        exact hf.record (hf.fetched (by rw [hv]; rfl) (by rw [hv]; simp))
    · exact hdone _ haws (fun htold => hi.fetch hp htold res) h
    · split_ifs at h
      exact hdone _ haws (fun htold => hi.fetch hp htold res) h

theorem Inv.drop (hi : Inv s) : Inv { s with awaiters := s.awaiters.erase p } := by
  refine { hi with
    announced := ?_
    detached := fun q aw' hq => hi.detached q aw' (lookup_of_lookup_erase hq) }
  rintro hu (⟨q, aw', hq, htold⟩ | hframe)
  · exact hi.over_of_told (lookup_of_lookup_erase hq) htold hu
  · exact hi.announced hu (Or.inr hframe)

theorem Inv.perform {a : Action V Err} (hi : Inv s) (hp : s.awaiters.lookup p = some aw)
    (ha : a.caller = some p) (hok : Unasked s a) (h : s.perform cas p aw a = .ok t) : Inv t := by
  cases a with
  | awaitReady q => cases ha; exact hi.awaitReady hp hok h
  | awaitEarlyCancel q done => exact hi.earlyCancel hp h
  | awaitSuspend q => exact hi.suspend h
  | awaitCancel q => exact hi.cancel h
  | awaitMustResume q must => exact hi.mustResume hp h
  | awaitResume q res => exact hi.awaitResume hp h
  | drop q =>
    simp only [State.perform] at h
    split_ifs at h
    cases h
    exact hi.drop
  | newAwaiter | becomesReady | resumes | suspendReturns | suspendThrows | cancelReturns | next =>
    cases ha

end Calls

/-! ### The wrapped awaiter and the loop of `invoke()` -/

theorem Inv.internal {a : Action V Err} (hi : Inv s) (h : s.internal a = .ok t) : Inv t := by
  cases a with
  | newAwaiter optional =>
    cases h
    have hi' : Inv { s with nextId := s.nextId + 1 } := { hi with announced := hi.announced }
    exact hi'.setAwaiter (fun hdet => Bool.noConfusion hdet) fun htold => Bool.noConfusion htold
  | becomesReady =>
    cases h
    exact hi.overNow (Or.inl rfl) rfl rfl id hi.completed
  | resumes must =>
    simp only [State.internal] at h
    split_ifs at h with hrun
    cases h
    have hst := hi.running hrun
    have hnow : Inv (s.setWrapped { s.wrapped with running := false, completed := true }) :=
      hi.overNow (Or.inr rfl) rfl rfl (fun hc => Bool.noConfusion hc) fun _ => hst
    exact hnow.invoke hst fun _ => Or.inr rfl
  | suspendReturns =>
    simp only [State.internal] at h
    split at h
    · rename_i hst
      cases h
      exact hi.pop hst
    · cases h
  | suspendThrows err =>
    simp only [State.internal] at h
    split at h
    · rename_i below hst
      split_ifs at h with hrun
      cases h
      have hstart := hi.running hrun
      have hset := ((hi.pop hst).settle (r := .exception err) rfl (fun _ => Or.inl hstart)
        fun _ => Or.inl hstart).stop
      refine hset.invoke hstart fun hu => ?_
      rcases hu with hu | hu <;> cases hu
    · cases h
  | cancelReturns done =>
    simp only [State.internal] at h
    split at h
    · rename_i hst
      split at h
      · rename_i hp
        exact (hi.pop hst).cancelReturns hp h
      · cases h
    · cases h
  | next =>
    simp only [State.internal] at h
    split at h
    · rename_i hst
      cases h
      exact hi.pop hst
    · rename_i p ps below hst
      have hmem : Frame.invoke (p :: ps) ∈ s.stack := by rw [hst]; exact List.mem_cons_self
      have hstart := hi.stack _ hmem
      split at h
      · rename_i aw hp
        have hi' : Inv { s with stack := .invoke ps :: below } := by
          refine hi.restack (fun _ => hstart) fun qs _ => ⟨_, hmem⟩
        obtain ⟨c', hc', rfl⟩ := check_eq_ok h
        refine (hi'.record ?_).setAwaiter (fun hdet => ?_) fun _ hu => ?_
        · exact fun _ => Or.inl hstart
        · have hc := hi.detached p aw hp hdet
          simp only [Checker.resumed, hc] at hc'
          cases hc'
        · exact hi.announced hu (Or.inr ⟨_, hmem⟩)
      · cases h
    · cases h
  | awaitReady | awaitEarlyCancel | awaitSuspend | awaitCancel | awaitMustResume | awaitResume
    | drop => cases h

/-- The step lemma. -/
theorem Inv.step {a : Action V Err} (hi : Inv s) (hok : Unasked s a) (h : step cas s a = .ok t) :
    Inv t := by
  unfold Shared.step at h
  split at h
  · rename_i p ha
    split at h
    · rename_i hp
      exact hi.perform hp ha hok h
    · cases h
  · exact hi.internal h

/-- The run lemma. -/
theorem inv_of_reach (hr : Reach (step cas) Unasked (.init : State V Err) s) : Inv s :=
  hr.invariant inv_init fun _ _ _ hi hok h => hi.step hok h

/-! ### The result -/

/-- Who asks then is resumed before the wrapped awaiter has been started. -/
theorem resumes_of_not_unasked {a : Action V Err} (hi : Inv s) (hok : ¬ Unasked s a)
    (h : step cas s a = .ok t) :
    ∃ p w, (.resumes p, w) ∈ t.log ∧ ¬ Sound (.resumes p, w) := by
  unfold Unasked at hok
  split at hok
  · rename_i p
    split at hok
    · rename_i hr
      have href := (hi.pending hr).2
      refine ⟨p, s.wrapped, ?_, fun hs => hok (hs href)⟩
      simp only [step, Action.caller] at h
      split at h
      · have hready : s.ready = true := by simp [State.ready, hr]
        simp only [State.perform, hready, Bool.or_true, if_true] at h
        obtain ⟨c', -, rfl⟩ := check_eq_ok h
        exact List.mem_append_right _ (List.mem_singleton.2 rfl)
      · cases h
    · exact absurd trivial hok
  · exact absurd trivial hok

/-- In every run in which nobody asks `await_ready()` in `CancelPending` before the wrapped awaiter
has been started or is ready, all calls are sound.  The first parent that does ask then is resumed
before the wrapped awaiter, which has refused to be cancelled early, has been started. -/
theorem resumed_only_if_started (hr : Reach (step cas) Unasked (.init : State V Err) s) :
    (∀ e ∈ s.log, Sound e) ∧
    ∀ a t, ¬ Unasked s a → step cas s a = .ok t →
      ∃ p w, (.resumes p, w) ∈ t.log ∧ ¬ Sound (.resumes p, w) := by
  have hi := inv_of_reach hr
  exact ⟨hi.log, fun a t hok h => resumes_of_not_unasked hi hok h⟩

/-- A parent that has asked before is cancelled early, which the wrapped awaiter refuses, and
suspends; then the wrapped awaiter completes all the same. -/
def askedBefore : List (Action ℕ ℕ) :=
  [.newAwaiter false, .awaitReady 0, .awaitEarlyCancel 0 false, .awaitSuspend 0, .suspendReturns,
    .resumes true, .next, .next, .awaitMustResume 0 true, .awaitResume 0 (.ok 7)]

theorem resumed_only_if_started_askedBefore :
    ∃ s, exec (step false) (.init : State ℕ ℕ) askedBefore = .ok s ∧ s.result = .value 7 ∧
      ∀ e ∈ s.log, Sound e := by
  have hm : Meets (step false) Unasked (.init : State ℕ ℕ) askedBefore := by decide
  exact ⟨_, rfl, rfl, (resumed_only_if_started (reach_of_exec hm rfl)).1⟩

/-- What `hookAwaitSuspend()` and `doResumeAfterCancel()` call on behalf of a task with a pending
cancellation: the wrapped awaiter refuses to be cancelled early and is not ready. -/
def cancelledTask : List (Action ℕ ℕ) :=
  [.newAwaiter false, .awaitEarlyCancel 0 false, .awaitReady 0, .awaitMustResume 0 true,
    .awaitResume 0 (.ok 7)]

/-- So a task can be resumed with the value of an operation that has never been started. -/
theorem not_resumed_only_if_started :
    ¬ ∀ s : State ℕ ℕ, Reach (step false) anyAction .init s → ∀ e ∈ s.log, Sound e := by
  intro h
  have hrun : ∃ s, exec (step false) (.init : State ℕ ℕ) cancelledTask = .ok s ∧
      (.succeeds 0, ⟨false, true, false, false, false⟩) ∈ s.log := ⟨_, rfl, by decide⟩
  obtain ⟨s, he, hmem⟩ := hrun
  rcases h s (reach_of_run he) _ hmem with hbegun | hready
  · cases hbegun
  · cases hready

end Corral.Shared
