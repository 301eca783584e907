import Corral.Nursery.Ledger
import Corral.Nursery.Pending

/-!
# A nursery with pending starts stays open

`NurseryBase::continuation()` closes the nursery when it has neither tasks nor pending starts.
`join()`, `asyncClose()` and `close()` look at the list of tasks only.

* `Mindful`: these three do not find the list empty while a start is pending, and no `start()` is
  awaited in a nursery that is closed;
* `StaysOpen`: the invariant of the mindful runs;
* `open_while_pending`: in them a nursery with pending starts is open, and no hand-off comes too
  late.  Any other step leaves the nursery closed with a pending start.
-/

namespace Corral.Nursery

open ActionMachine Registry

variable {Err : Type*} {s t : State Err} {g g' : Ledger Err}

/-- The parent goes on, or the close continuation is called. -/
def releases (s : State Err) : Action Err → Bool
  | .join => !s.executor || s.tasks.isEmpty
  | .asyncClose => s.tasks.isEmpty
  | .callback .resumeParent => true
  | _ => false

/-- Nobody closes the nursery while a start is pending, or awaits `start()` once it is closed. -/
def Mindful (s : State Err) : Action Err → Prop
  | .join => s.executor = true → s.tasks = [] → s.pendingTaskCount = 0
  | .asyncClose => s.tasks = [] → s.pendingTaskCount = 0
  | .next => s.stack.head? = some .closing → s.pendingTaskCount = 0
  | .startSuspend _ none => s.executor = true
  | _ => True

instance (s : State Err) (a : Action Err) : Decidable (Mindful s a) := by
  unfold Mindful
  split <;> infer_instance

/-- The resumption of the parent is about to be submitted, or has been. -/
def Ledger.releasing (g : Ledger Err) : Prop :=
  g.scheduled = true ∨ .runSoon true ∈ g.calls ∨ .resumeParent ∈ g.duties

/-- The invariant of the mindful runs. -/
structure StaysOpen (g : Ledger Err) : Prop where
  pending : 0 < g.pendingTaskCount → g.executor = true
  joined : g.parent = true → g.joined = true
  released : g.releasing → g.executor = false ∧ g.joined = true

namespace StaysOpen

/-- Nothing is opened, closed or submitted, and no start becomes pending. -/
theorem of_same (hi : StaysOpen g) (hp : g'.pendingTaskCount ≤ g.pendingTaskCount)
    (he : g'.executor = g.executor) (hpar : g'.parent = g.parent) (hj : g'.joined = g.joined)
    (hr : g'.releasing → g.releasing) : StaysOpen g' := by
  refine ⟨fun h => ?_, fun h => ?_, fun h => ?_⟩
  · rw [he]
    exact hi.pending (h.trans_le hp)
  · rw [hj]
    exact hi.joined (hpar ▸ h)
  · rw [he, hj]
    exact hi.released (hr h)

theorem stores (hi : StaysOpen g) (h : g.Stores g') : StaysOpen g' := by
  obtain ⟨e, c, ps, -, -, rfl⟩ := h
  refine hi.of_same le_rfl rfl rfl rfl ?_
  simp [Ledger.releasing]

theorem push (hi : StaysOpen g) {f : Frame} (hf : f ≠ .runSoon true) : StaysOpen (g.push f) := by
  refine hi.of_same le_rfl rfl rfl rfl ?_
  simp [Ledger.releasing, Ledger.push, hf.symm]

theorem submit (hi : StaysOpen g) {cb : Callback} (hcb : cb ≠ .resumeParent) :
    StaysOpen (g.submit cb) := by
  refine hi.of_same le_rfl rfl rfl rfl ?_
  simp [Ledger.releasing, Ledger.submit, hcb.symm]

theorem setStarter (hi : StaysOpen g) (a : ℕ) (st : Starter Err) : StaysOpen (g.setStarter a st) :=
  hi.of_same le_rfl rfl rfl rfl id

theorem addPromise (hi : StaysOpen g) (par : Parent) : StaysOpen (g.addPromise par) := by
  have hset : StaysOpen { g.setParent g.nextId none with nextId := g.nextId + 1 } :=
    hi.of_same le_rfl rfl rfl rfl id
  exact hset.push (by simp)

theorem finish (hi : StaysOpen g) (p : ℕ) (par : Parent) : StaysOpen (g.finish p par) := by
  have hset : StaysOpen (g.setParent p none) := hi.of_same le_rfl rfl rfl rfl id
  exact hset.push (by simp)

theorem cancelled (hi : StaysOpen g) (par : Parent) : StaysOpen (g.cancelled par) := by
  obtain ⟨sts, h⟩ := g.exists_cancelled par
  rw [h]
  exact hi.of_same le_rfl rfl rfl rfl id

/-- A callback is taken off the queue. -/
theorem unqueue (hi : StaysOpen g) (cb : Callback) :
    StaysOpen { g with duties := g.duties.erase cb } := by
  refine hi.of_same le_rfl rfl rfl rfl fun h => ?_
  exact h.imp_right (Or.imp_right List.mem_of_mem_erase)

/-- A call returns. -/
theorem pop (hi : StaysOpen s.ledger) {f : Frame} {below : List Frame}
    (hst : s.stack = f :: below) : StaysOpen { s.ledger with calls := below.filter Frame.own } := by
  refine hi.of_same le_rfl rfl rfl rfl fun h => ?_
  exact h.imp_right (Or.imp_left (@calls_subset _ _ _ _ hst _))

theorem close (hi : StaysOpen g) (hp : g.pendingTaskCount = 0) :
    StaysOpen { g with executor := false } :=
  ⟨fun h => absurd hp h.ne', hi.joined, fun h => ⟨rfl, (hi.released h).2⟩⟩

/-- The nursery gets a parent. -/
theorem join (hi : StaysOpen g) : StaysOpen { g with parent := true, joined := true } :=
  ⟨hi.pending, fun _ => rfl, fun h => ⟨(hi.released h).1, rfl⟩⟩

/-- The nursery is closed by `continuation()`, which takes its parent. -/
theorem release (hi : StaysOpen g) (hf : g.finished = true) (hg : g'.executor = false)
    (hp : g'.pendingTaskCount = g.pendingTaskCount) (hj : g'.joined = g.joined) :
    StaysOpen g' := by
  simp only [Ledger.finished, Bool.and_eq_true, beq_iff_eq] at hf
  have hjoined := hj.trans (hi.joined hf.2)
  refine ⟨fun h => ?_, fun _ => hjoined, fun _ => ⟨hg, hjoined⟩⟩
  rw [hp, hf.1.2] at h
  exact absurd h (lt_irrefl 0)

theorem closeIfFinished (hi : StaysOpen g) : StaysOpen g.closeIfFinished := by
  unfold Ledger.closeIfFinished
  split_ifs with h
  · exact hi.release h rfl rfl rfl
  · exact hi

end StaysOpen

/-- The step lemma. -/
theorem StaysOpen.entry {a : Action Err} (hi : StaysOpen s.ledger) (hok : Mindful s a)
    (h : Entry s a g) : StaysOpen g := by
  cases h with
  | openScope hj =>
    refine ⟨fun _ => rfl, fun _ => rfl, fun hr => ?_⟩
    have hjoined : s.joined = true := (hi.released hr).2
    rw [hj] at hjoined
    cases hjoined
  | bodyPromise | start => exact hi.addPromise _
  | bodyDone => exact (hi.push (by simp)).stores (Ledger.stores_storeInScope _ _)
  | joinClosed | closeEmpty | startCancelHanded | await | resume | cancelRefused
  | ignoreInStarter | run | runSoonReturns => exact hi
  | joinEmpty he hnil => exact hi.close (hok he hnil)
  | join => exact hi.join
  | asyncCloseEmpty hnil => exact hi.close (hok hnil)
  | asyncClose => exact hi.join.stores (Ledger.stores_cancel _)
  | close => exact hi.submit (by simp)
  | closed hst => exact hi.close (hok (by rw [hst]; rfl))
  | cancel => exact hi.stores (Ledger.stores_cancel _)
  | startDone => exact hi.stores (Ledger.stores_storeInNursery _ _)
  | newStart => exact hi.of_same le_rfl rfl rfl rfl id
  | startEarlyCancel | startCancel | startedCancelling | storeInStarter => exact hi.setStarter _ _
  | startPending =>
    -- the only step after which one more start is pending
    exact ⟨fun _ => hok, hi.joined, hi.released⟩
  | handOff =>
    refine StaysOpen.push ?_ (by simp)
    exact hi.of_same (Nat.sub_le _ _) rfl rfl rfl id
  | dropStart | dropStartHanded => exact hi.of_same le_rfl rfl rfl rfl id
  | awaitCancelled | resumeCancelled | cancelConfirmed => exact (hi.cancelled _).finish _ _
  | storeInNursery => exact hi.stores (Ledger.stores_storeInNursery _ _)
  | storeInScope => exact hi.stores (Ledger.stores_storeInScope _ _)
  | finalSuspend => exact hi.finish _ _
  | cancelTask | resumeParent => exact hi.unqueue _
  | destroyTask => exact (hi.unqueue _).of_same le_rfl rfl rfl rfl id
  | cancelNursery => exact (hi.unqueue _).stores (Ledger.stores_cancel _)
  | startContinuation hst =>
    refine (hi.pop hst).of_same ?_ rfl rfl rfl id
    show (if _ then s.pendingTaskCount - 1 else s.pendingTaskCount) ≤ s.pendingTaskCount
    split_ifs
    · exact Nat.sub_le _ _
    · exact le_rfl
  | continuation hst =>
    refine StaysOpen.closeIfFinished (StaysOpen.submit ?_ (by simp))
    exact (hi.pop hst).of_same le_rfl rfl rfl rfl id
  | continuationBody hst => exact hi.pop hst
  | continuationLast hst hf => exact hi.release hf rfl rfl rfl
  | adoptedStarter hst | adopted hst => exact (hi.pop hst).of_same le_rfl rfl rfl rfl id
  | submitResume hst =>
    have hrel := hi.released (Or.inr (Or.inl (by simp [State.ledger, hst, Frame.own])))
    exact ⟨hi.pending, hi.joined, fun _ => hrel⟩

/-- The run lemma. -/
theorem staysOpen_of_reach {kind : Kind} (hr : Reach step Mindful (.init kind : State Err) s) :
    StaysOpen s.ledger := by
  have hinit : StaysOpen (State.init kind : State Err).ledger :=
    ⟨fun h => absurd h (lt_irrefl 0), fun h => Bool.noConfusion h,
      fun h => by simp [Ledger.releasing, State.ledger, State.init] at h⟩
  exact hr.invariant (I := fun s => StaysOpen s.ledger) hinit
    fun _ _ _ hi hok h => hi.entry hok (entry_of_step h)

/-! ### The result -/

theorem cancelPromise_ne_assertion (s : State Err) (p : ℕ) :
    s.cancelPromise p ≠ .error .assertion := by
  intro h
  unfold State.cancelPromise at h
  split at h
  · cases h
  · split_ifs at h

theorem adopt_assertion {p : ℕ} {par : Parent} (h : s.adopt p par = .error .assertion) :
    s.executor = false := by
  unfold State.adopt at h
  split_ifs at h with he
  · exact he
  · exact absurd h (cancelPromise_ne_assertion _ _)

/-- The assertion of a hand-off fails only in a closed nursery, for a start that is pending. -/
theorem started_assertion {a : ℕ} (h : step s (.started a) = .error .assertion) :
    s.executor = false ∧ ∃ st, s.starters.lookup a = some st ∧ st.nursery = true ∧
      st.promise.isSome = true := by
  simp only [step] at h
  split at h
  swap
  · cases h
  simp only [State.perform] at h
  split at h
  · rename_i st ha
    split at h
    · rename_i p hsink hp
      simp only [State.markStarted] at h
      split_ifs at h
      split at h
      · rename_i pr hn hpr
        have he : s.executor = false := (adopt_assertion h :)
        exact ⟨he, st, ha, hn, by rw [hp]; rfl⟩
      · cases h
    · cases h
  · cases h

/-- A step that is not mindful leaves the nursery closed with a pending start. -/
theorem closed_of_not_mindful {a : Action Err} (hok : ¬ Mindful s a) (h : step s a = .ok t) :
    0 < t.pendingTaskCount ∧ t.executor = false := by
  unfold Mindful at hok
  split at hok
  · rw [Classical.not_imp, Classical.not_imp] at hok
    obtain ⟨he, hnil, hp⟩ := hok
    simp only [step, State.perform, he, hnil, reduceCtorEq, if_true, if_false] at h
    split_ifs at h
    cases h
    exact ⟨Nat.pos_of_ne_zero hp, rfl⟩
  · rw [Classical.not_imp] at hok
    obtain ⟨hnil, hp⟩ := hok
    simp only [step, State.perform, hnil] at h
    split_ifs at h
    cases h
    exact ⟨Nat.pos_of_ne_zero hp, rfl⟩
  · rw [Classical.not_imp] at hok
    obtain ⟨htop, hp⟩ := hok
    obtain ⟨below, hst⟩ : ∃ below, s.stack = .closing :: below := by
      cases hst : s.stack with
      | nil => rw [hst] at htop; cases htop
      | cons f below => rw [hst] at htop; exact ⟨below, by rw [Option.some.inj htop]⟩
    simp only [step, State.next, hst] at h
    split_ifs at h
    cases h
    exact ⟨Nat.pos_of_ne_zero hp, rfl⟩
  · rename_i a
    simp only [step, State.perform] at h
    split_ifs at h
    split at h
    · split_ifs at h
      cases h
      have he : s.executor = false := by simpa using hok
      exact ⟨Nat.succ_pos _, he⟩
    · cases h
  · exact absurd trivial hok

/-- In every mindful run, as long as a start is pending the nursery is open: its executor is there,
the resumption of its parent has not been submitted, and no step lets the parent or the close
continuation go on; and no hand-off finds the nursery closed.  The first step that is not mindful
leaves the nursery closed with a pending start. -/
theorem open_while_pending {kind : Kind} (hr : Reach step Mindful (.init kind : State Err) s) :
    (0 < s.pendingTaskCount → s.executor = true ∧ s.scheduled = false ∧
      ∀ a t, Mindful s a → step s a = .ok t → releases s a = false) ∧
    (∀ a, step s (.started a) ≠ .error .assertion) ∧
    ∀ a t, ¬ Mindful s a → step s a = .ok t → 0 < t.pendingTaskCount ∧ t.executor = false := by
  have hi := staysOpen_of_reach hr
  refine ⟨fun hp => ?_, fun a ha => ?_, fun a t hok h => closed_of_not_mindful hok h⟩
  · have he : s.executor = true := hi.pending hp
    have hrel : ¬ s.ledger.releasing := fun h => by
      have hclosed : s.executor = false := (hi.released h).1
      rw [he] at hclosed
      cases hclosed
    have hsched : s.scheduled = false := Bool.eq_false_iff.2 fun h => hrel (Or.inl h)
    refine ⟨he, hsched, fun a t hok h => ?_⟩
    unfold releases
    split
    · have hne : s.tasks ≠ [] := fun hnil => absurd (hok he hnil) hp.ne'
      simpa [he] using hne
    · have hne : s.tasks ≠ [] := fun hnil => absurd (hok hnil) hp.ne'
      simpa using hne
    · simp only [step, State.perform] at h
      split_ifs at h with _ hmem
      exact absurd (Or.inr (Or.inr (List.mem_filter.2 ⟨hmem, rfl⟩))) hrel
    · rfl
  · obtain ⟨he, st, hlook, hn, hsome⟩ := started_assertion ha
    have hexec : s.executor = true := hi.pending ((pendingTaskCount_eq hr).2.2 a st hlook hn hsome)
    rw [he] at hexec
    cases hexec

/-- A task awaits `start()` in an `UnsafeNursery` in which another task is running, and the nursery
is joined before the started task signals readiness. -/
def startThenJoin : List (Action ℕ) :=
  [.start .promise, .next, .newStart, .startSuspend 1 none, .callback (.run 2), .join]

theorem open_while_pending_startThenJoin :
    ∃ s, exec step (.init .unsafeNursery : State ℕ) startThenJoin = .ok s ∧
      0 < s.pendingTaskCount ∧ s.executor = true ∧ step s (.started 1) ≠ .error .assertion := by
  have hm : Meets step Mindful (.init .unsafeNursery : State ℕ) startThenJoin := by decide
  have hrun : ∃ s, exec step (.init .unsafeNursery : State ℕ) startThenJoin = .ok s ∧
      0 < s.pendingTaskCount := ⟨_, rfl, by decide⟩
  obtain ⟨s, he, hp⟩ := hrun
  have hopen := open_while_pending (reach_of_exec hm he)
  exact ⟨s, he, hp, (hopen.1 hp).1, hopen.2.1 1⟩

/-- A task awaits `start()` in an `UnsafeNursery` without tasks, and the nursery is joined before
the started task signals readiness. -/
def joinWhilePending : List (Action ℕ) :=
  [.newStart, .startSuspend 0 none, .callback (.run 1), .join]

/-- So a nursery can be closed while a start is pending, and the hand-off fails. -/
theorem not_open_while_pending :
    ¬ ∀ (kind : Kind) (s : State ℕ), Reach step anyAction (.init kind) s →
      (0 < s.pendingTaskCount → s.executor = true ∧ s.scheduled = false ∧
        ∀ a t, step s a = .ok t → releases s a = false) ∧
      ∀ a, step s (.started a) ≠ .error .assertion := by
  intro h
  have hrun : ∃ s, exec step (.init .unsafeNursery : State ℕ) joinWhilePending = .ok s ∧
      step s (.started 0) = .error .assertion := ⟨_, rfl, rfl⟩
  obtain ⟨s, he, hstarted⟩ := hrun
  exact (h .unsafeNursery s (reach_of_run he)).2 0 hstarted

end Corral.Nursery
