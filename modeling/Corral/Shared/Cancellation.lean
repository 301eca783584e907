import Corral.Shared.Steps

/-!
# A shared operation whose parents are cancelled

`Shared::State::cancel()` forwards the cancellation to the wrapped awaiter if there is one parent
left, and drops the parent otherwise.  This is right as long as `parents_` holds the parents that
wait for the operation in progress, and `invoke()` has the others; a parent that suspends when the
operation has ended starts it once more, and then both lists hold parents.

* `Prompt`: no parent suspends at such a moment, or in the middle of a cancellation;
* `Placed`: where the parents are in such runs;
* `cancelled_once`: the wrapped awaiter is cancelled at most once, on behalf of the last parent, and
  the cancellation of any other parent concerns this parent only.
-/

namespace Corral.Shared

open ActionMachine Registry AwaiterStateChecker

variable {V Err : Type*} {cas : Bool} {s t : State V Err}

/-! ### The runs -/

def Frame.isAwaitCancel : Frame → Bool
  | .awaitCancel _ => true
  | _ => false

/-- No parent calls `await_suspend()` when the operation has ended, or when `await_cancel()` of the
wrapped awaiter is in progress. -/
def Prompt (s : State V Err) : Action V Err → Prop
  | .awaitSuspend _ => s.wrapped.ended = false ∧ s.stack.any Frame.isAwaitCancel = false
  | _ => True

instance (s : State V Err) : (a : Action V Err) → Decidable (Prompt s a)
  | .awaitSuspend _ => inferInstanceAs (Decidable (_ ∧ _))
  | .newAwaiter _ | .awaitReady _ | .awaitEarlyCancel _ _ | .awaitCancel _ | .awaitMustResume _ _
  | .awaitResume _ _ | .drop _ | .becomesReady | .resumes _ | .suspendReturns | .suspendThrows _
  | .cancelReturns _ | .next => isTrue trivial

/-- The wrapped awaiter is not asked to cancel early. -/
def Unforwarded (s : State V Err) : Action V Err → Prop
  | .awaitEarlyCancel p _ => ∀ aw, s.awaiters.lookup p = some aw → ¬ s.forwards aw
  | _ => True

/-! ### Where the parents are -/

/-- The parents that are suspended are in `parents_` while the operation is in progress, and with
`invoke()` once it has ended. -/
structure Placed (s : State V Err) : Prop where
  nodup : s.waiting.Nodup
  waiting : ∀ p, p ∈ s.waiting ↔
    ∃ aw, s.awaiters.lookup p = some aw ∧ aw.checker.state.suspended = true
  attached : ∀ p aw, s.awaiters.lookup p = some aw → aw.checker.state.suspended = true →
    aw.attached = true
  started : s.wrapped.running = true → s.wrapped.started = true
  parents : s.parents = [] ↔ s.wrapped.running = false
  woken : ∀ ps, .invoke ps ∈ s.stack → s.wrapped.ended = true
  sole : ∀ p, .awaitCancel p ∈ s.stack → s.wrapped.running = true → s.parents = [p]
  fresh : ∀ p aw, s.awaiters.lookup p = some aw → p < s.nextId

theorem placed_init : Placed (State.init : State V Err) where
  nodup := List.nodup_nil
  waiting := fun p => by simp [State.waiting, State.init]
  attached := fun p aw h => by cases h
  started := fun h => by cases h
  parents := by simp [State.init]
  woken := fun ps h => by cases h
  sole := fun p h => by cases h
  fresh := fun p aw h => by cases h

/-- What does not concern the places of the parents. -/
theorem Placed.congr (hs : Placed s) (ha : t.awaiters = s.awaiters) (hp : t.parents = s.parents)
    (hst : t.stack = s.stack) (hrun : t.wrapped.running = s.wrapped.running)
    (hstart : t.wrapped.started = s.wrapped.started) (hn : t.nextId = s.nextId) : Placed t where
  nodup := by rw [State.waiting, hp, hst]; exact hs.nodup
  waiting := by rw [State.waiting, hp, hst, ha]; exact hs.waiting
  attached := by rw [ha]; exact hs.attached
  started := by rw [hrun, hstart]; exact hs.started
  parents := by rw [hp, hrun]; exact hs.parents
  woken := by rw [hst, Wrapped.ended, hrun, hstart]; exact hs.woken
  sole := by rw [hst, hp, hrun]; exact hs.sole
  fresh := by rw [ha, hn]; exact hs.fresh

/-- An awaiter changes, but not whether its parent is suspended. -/
theorem Placed.setAwaiter (hs : Placed s) {p : ℕ} {aw aw' : Awaiter}
    (hp : s.awaiters.lookup p = some aw)
    (hsus : aw'.checker.state.suspended = aw.checker.state.suspended)
    (hat : aw'.checker.state.suspended = true → aw'.attached = true) :
    Placed (s.setAwaiter p aw') where
  nodup := hs.nodup
  waiting := by
    intro q
    refine (hs.waiting q).trans ?_
    simp only [State.setAwaiter, lookup_insert_eq]
    split_ifs with h
    · subst h
      simp [hp, hsus]
    · rfl
  attached := by
    intro q aw'' hq
    simp only [State.setAwaiter, lookup_insert_eq] at hq
    split_ifs at hq
    · cases hq
      exact hat
    · exact hs.attached q aw'' hq
  started := hs.started
  parents := hs.parents
  woken := hs.woken
  sole := hs.sole
  fresh := by
    intro q aw'' hq
    simp only [State.setAwaiter, lookup_insert_eq] at hq
    split_ifs at hq with h
    · exact h ▸ hs.fresh p aw hp
    · exact hs.fresh q aw'' hq

/-- The awaiter of a parent that is not suspended changes. -/
theorem Placed.setAwaiter_of_not (hs : Placed s) {p : ℕ} {aw aw' : Awaiter}
    (hp : s.awaiters.lookup p = some aw) (hnot : aw.checker.state.suspended = false)
    (hnot' : aw'.checker.state.suspended = false) : Placed (s.setAwaiter p aw') :=
  hs.setAwaiter hp (hnot'.trans hnot.symm) fun h => by simp [hnot'] at h

theorem Placed.newAwaiter (hs : Placed s) (optional : Bool) :
    Placed ({ s with nextId := s.nextId + 1 }.setAwaiter s.nextId ⟨true, optional, .init⟩) := by
  have hnew : s.awaiters.lookup s.nextId = none := by
    cases h : s.awaiters.lookup s.nextId with
    | none => rfl
    | some aw => exact absurd (hs.fresh s.nextId aw h) (lt_irrefl _)
  refine { hs with
    attached := fun q aw' hq => ?_
    waiting := fun q => (hs.waiting q).trans ?_
    nodup := hs.nodup
    fresh := fun q aw' hq => ?_ }
  · simp only [State.setAwaiter, lookup_insert_eq]
    split_ifs with h
    · subst h
      simp [hnew, Checker.init, AwaiterStateChecker.State.suspended]
    · rfl
  · simp only [State.setAwaiter, lookup_insert_eq] at hq
    split_ifs at hq
    · cases hq
      exact fun _ => rfl
    · exact hs.attached q aw' hq
  · simp only [State.setAwaiter, lookup_insert_eq] at hq
    split_ifs at hq with h
    · exact h ▸ Nat.lt_succ_self _
    · exact (hs.fresh q aw' hq).trans (Nat.lt_succ_self _)

/-- Where a parent is suspended. -/
theorem Placed.mem_waiting (hs : Placed s) {p : ℕ} {aw : Awaiter}
    (hp : s.awaiters.lookup p = some aw) :
    p ∈ s.waiting ↔ aw.checker.state.suspended = true := by
  rw [hs.waiting]
  constructor
  · rintro ⟨aw', hp', h⟩
    cases hp.symm.trans hp'
    exact h
  · exact fun h => ⟨aw, hp, h⟩

/-- While the operation is in progress, `invoke()` has no parents. -/
theorem Placed.waiting_of_not_ended (hs : Placed s) (h : s.wrapped.ended = false) :
    s.waiting = s.parents := by
  have hnil : s.stack.flatMap Frame.parents = [] := by
    rw [List.flatMap_eq_nil_iff]
    intro f hf
    cases f with
    | invoke ps => cases h.symm.trans (hs.woken ps hf)
    | awaitSuspend => rfl
    | awaitCancel p => rfl
  rw [State.waiting, hnil, List.append_nil]

theorem not_ended_of_running (h : s.wrapped.running = true) : s.wrapped.ended = false := by
  simp [Wrapped.ended, h]

theorem Placed.parents_of_ended (hs : Placed s) (h : s.wrapped.ended = true) : s.parents = [] := by
  rw [hs.parents]
  simp only [Wrapped.ended, Bool.and_eq_true, Bool.not_eq_true'] at h
  exact h.2

/-- A parent that was not suspended is added to the parents that wait. -/
theorem Placed.add (hs : Placed s) {p : ℕ} {aw : Awaiter} (aw' : Awaiter) {l : List ℕ}
    (hp : s.awaiters.lookup p = some aw) (hnot : aw.checker.state.suspended = false)
    (hsus : aw'.checker.state.suspended = true) (hl : l.Perm (p :: s.waiting)) :
    l.Nodup ∧ ∀ q, q ∈ l ↔ ∃ aw'', (s.setAwaiter p aw').awaiters.lookup q = some aw'' ∧
      aw''.checker.state.suspended = true := by
  have hnew : p ∉ s.waiting := by simp [hs.mem_waiting hp, hnot]
  refine ⟨hl.nodup_iff.2 (List.nodup_cons.2 ⟨hnew, hs.nodup⟩), fun q => ?_⟩
  rw [hl.mem_iff, List.mem_cons, hs.waiting]
  simp only [State.setAwaiter, lookup_insert_eq]
  split_ifs with h
  · simp [h, hsus]
  · simp [h]

/-- A parent that was suspended is taken from the parents that wait. -/
theorem Placed.remove (hs : Placed s) {p : ℕ} {aw' : Awaiter}
    (hnot : aw'.checker.state.suspended = false) (q : ℕ) :
    q ∈ s.waiting.filter (· != p) ↔ ∃ aw'', (s.setAwaiter p aw').awaiters.lookup q = some aw'' ∧
      aw''.checker.state.suspended = true := by
  rw [List.mem_filter, hs.waiting]
  simp only [State.setAwaiter, lookup_insert_eq]
  split_ifs with h
  · simp [h, hnot]
  · simp [h]

/-- The awaiters that are there when one of them has been set. -/
theorem Placed.of_setAwaiter (hs : Placed s) {p : ℕ} {aw : Awaiter} (aw' : Awaiter)
    (hp : s.awaiters.lookup p = some aw)
    (hat : aw'.checker.state.suspended = true → aw'.attached = true) (q : ℕ) (aw'' : Awaiter)
    (hq : (s.setAwaiter p aw').awaiters.lookup q = some aw'') :
    (aw''.checker.state.suspended = true → aw''.attached = true) ∧ q < s.nextId := by
  simp only [State.setAwaiter, lookup_insert_eq] at hq
  split_ifs at hq with h
  · cases hq
    exact ⟨hat, h ▸ hs.fresh p aw hp⟩
  · exact ⟨hs.attached q aw'' hq, hs.fresh q aw'' hq⟩

theorem flatMap_unlink {p : ℕ} {st : List Frame} (h : (st.flatMap Frame.parents).Nodup) :
    (st.map (Frame.unlink p)).flatMap Frame.parents =
      (st.flatMap Frame.parents).filter (· != p) := by
  induction st with
  | nil => rfl
  | cons f st ih =>
    rw [List.flatMap_cons, List.nodup_append] at h
    rw [List.map_cons, List.flatMap_cons, List.flatMap_cons, List.filter_append, ih h.2.1]
    congr 1
    cases f with
    | awaitSuspend => rfl
    | awaitCancel q => rfl
    | invoke ps => exact h.1.erase_eq_filter p

theorem waiting_unlink {p : ℕ} (h : s.waiting.Nodup) :
    (s.unlink p).waiting = s.waiting.filter (· != p) := by
  have hsplit := h
  rw [State.waiting, List.nodup_append] at hsplit
  rw [State.waiting, State.waiting, List.filter_append, ← flatMap_unlink hsplit.2.1,
    ← hsplit.1.erase_eq_filter p]
  rfl

theorem mem_unlink_invoke {p : ℕ} {ps : List ℕ} {st : List Frame}
    (h : .invoke ps ∈ st.map (Frame.unlink p)) : ∃ qs, .invoke qs ∈ st := by
  obtain ⟨f, hf, he⟩ := List.mem_map.1 h
  cases f with
  | invoke qs => exact ⟨qs, hf⟩
  | awaitSuspend => cases he
  | awaitCancel q => cases he

theorem mem_unlink_awaitCancel {p q : ℕ} {st : List Frame}
    (h : .awaitCancel q ∈ st.map (Frame.unlink p)) : .awaitCancel q ∈ st := by
  obtain ⟨f, hf, he⟩ := List.mem_map.1 h
  cases f with
  | invoke qs => cases he
  | awaitSuspend => cases he
  | awaitCancel q' =>
    cases he
    exact hf

/-! ### The steps -/

theorem Placed.starts (hs : Placed s) {p : ℕ} {aw : Awaiter} {c : Checker}
    (hp : s.awaiters.lookup p = some aw) (hat : aw.attached = true)
    (hc : (aw.checker.aboutToSetExecutor).bind Checker.aboutToSuspend = some c)
    (hnil : s.parents = []) (hend : s.wrapped.ended = false)
    (hno : s.stack.any Frame.isAwaitCancel = false) :
    Placed ({ s with
      parents := [p]
      result := s.result.onSuspend
      wrapped := { s.wrapped with started := true, running := true }
      stack := .awaitSuspend :: s.stack }.setAwaiter p { aw with checker := c }) := by
  obtain ⟨hnot, hsus⟩ := suspended_of_aboutToSuspend hc
  have hwait : s.waiting = [] := (hs.waiting_of_not_ended hend).trans hnil
  have hframes : s.stack.flatMap Frame.parents = [] := by
    rw [State.waiting, hnil, List.nil_append] at hwait
    exact hwait
  have hperm : List.Perm ([p] ++ s.stack.flatMap Frame.parents) (p :: s.waiting) := by
    rw [hframes, hwait]
    exact List.Perm.refl _
  obtain ⟨hnodup, hmem⟩ := hs.add { aw with checker := c } hp hnot hsus hperm
  have haw := hs.of_setAwaiter { aw with checker := c } hp fun _ => hat
  refine ⟨hnodup, hmem, fun q aw' hq => (haw q aw' hq).1, fun _ => rfl, ?_, ?_, ?_,
    fun q aw' hq => (haw q aw' hq).2⟩
  · simp [State.setAwaiter]
  · intro ps hps
    have hold : .invoke ps ∈ s.stack := (List.mem_cons.1 hps).resolve_left (by simp)
    cases hend.symm.trans (hs.woken ps hold)
  · intro q hq
    have hold : .awaitCancel q ∈ s.stack := (List.mem_cons.1 hq).resolve_left (by simp)
    simpa [Frame.isAwaitCancel] using List.any_eq_false.1 hno _ hold

theorem Placed.joins (hs : Placed s) {p : ℕ} {aw : Awaiter} {c : Checker}
    (hp : s.awaiters.lookup p = some aw) (hat : aw.attached = true)
    (hc : (aw.checker.aboutToSetExecutor).bind Checker.aboutToSuspend = some c)
    (hne : s.parents ≠ []) (hno : s.stack.any Frame.isAwaitCancel = false) :
    Placed ({ s with parents := s.parents ++ [p] }.setAwaiter p { aw with checker := c }) := by
  obtain ⟨hnot, hsus⟩ := suspended_of_aboutToSuspend hc
  have hrun : s.wrapped.running = true := by simpa using mt hs.parents.2 hne
  have hperm : List.Perm (s.parents ++ [p] ++ s.stack.flatMap Frame.parents) (p :: s.waiting) := by
    rw [List.append_assoc]
    exact List.perm_middle
  obtain ⟨hnodup, hmem⟩ := hs.add { aw with checker := c } hp hnot hsus hperm
  have haw := hs.of_setAwaiter { aw with checker := c } hp fun _ => hat
  refine ⟨hnodup, hmem, fun q aw' hq => (haw q aw' hq).1, hs.started, ?_, hs.woken, ?_,
    fun q aw' hq => (haw q aw' hq).2⟩
  · simp [State.setAwaiter, hrun]
  · intro q hq
    simpa [Frame.isAwaitCancel] using List.any_eq_false.1 hno _ hq

theorem Placed.drop (hs : Placed s) {p : ℕ} {aw : Awaiter} (hp : s.awaiters.lookup p = some aw)
    (hreset : aw.checker.mayReset = true) :
    Placed { s with awaiters := s.awaiters.erase p } := by
  refine { hs with
    nodup := hs.nodup
    waiting := fun q => (hs.waiting q).trans ?_
    attached := fun q aw' hq => hs.attached q aw' (lookup_of_lookup_erase hq)
    fresh := fun q aw' hq => hs.fresh q aw' (lookup_of_lookup_erase hq) }
  rw [lookup_erase_eq]
  split_ifs with h
  · subst h
    simp [hp, suspended_of_mayReset hreset]
  · rfl

/-- A call returns that has no parents to wake up. -/
theorem Placed.pop (hs : Placed s) {f : Frame} {below : List Frame} (hst : s.stack = f :: below)
    (hf : f.parents = []) : Placed { s with stack := below } := by
  have hwait : State.waiting { s with stack := below } = s.waiting := by
    simp [State.waiting, hst, hf]
  have hmem : ∀ g, g ∈ below → g ∈ s.stack := fun g hg => hst ▸ List.mem_cons_of_mem f hg
  refine { hs with
    nodup := hwait ▸ hs.nodup
    waiting := fun q => by rw [hwait]; exact hs.waiting q
    woken := fun ps hps => hs.woken ps (hmem _ hps)
    sole := fun q hq => hs.sole q (hmem _ hq) }

/-- The operation ends, and the loop of `invoke()` gets the parents. -/
theorem Placed.invoke (hs : Placed s) {r : Result V Err} {w : Wrapped}
    {log : List (Call × Wrapped)} (hw : w.running = false) (hstart : w.started = true) :
    Placed { s with
      result := r
      parents := []
      wrapped := w
      stack := .invoke s.parents :: s.stack
      log := log } := by
  have hend : w.ended = true := by simp [Wrapped.ended, hw, hstart]
  have hwait : State.waiting { s with
      result := r, parents := [], wrapped := w, stack := .invoke s.parents :: s.stack, log := log } =
      s.waiting := by
    simp [State.waiting, Frame.parents]
  refine ⟨hwait ▸ hs.nodup, fun q => by rw [hwait]; exact hs.waiting q, hs.attached,
    fun _ => hstart, iff_of_true rfl hw, fun _ _ => hend, fun q _ h => ?_, hs.fresh⟩
  cases hw.symm.trans h

/-- A parent is taken off its list because its cancellation has succeeded. -/
theorem Placed.unlink (hs : Placed s) {p : ℕ} {aw aw' : Awaiter}
    (hp : s.awaiters.lookup p = some aw) (hnot : aw'.checker.state.suspended = false)
    (hpar : s.parents.erase p = [] ↔ s.wrapped.running = false)
    (hsole : ∀ q, .awaitCancel q ∈ s.stack → s.wrapped.running = true → s.parents.erase p = [q]) :
    Placed ((s.unlink p).setAwaiter p aw') := by
  have hwait := waiting_unlink (p := p) hs.nodup
  have haw := hs.of_setAwaiter aw' hp fun h => by simp [hnot] at h
  refine ⟨?_, fun q => ?_, fun q aw'' hq => (haw q aw'' hq).1, hs.started, hpar, ?_, ?_,
    fun q aw'' hq => (haw q aw'' hq).2⟩
  · show (s.unlink p).waiting.Nodup
    rw [hwait]
    exact hs.nodup.filter _
  · show q ∈ (s.unlink p).waiting ↔ _
    rw [hwait]
    exact hs.remove hnot q
  · intro ps hps
    obtain ⟨qs, hqs⟩ := mem_unlink_invoke hps
    exact hs.woken qs hqs
  · exact fun q hq hrun => hsole q (mem_unlink_awaitCancel hq) hrun

theorem Placed.cancelsOther (hs : Placed s) {p : ℕ} {aw aw' : Awaiter}
    (hp : s.awaiters.lookup p = some aw) (hnot : aw'.checker.state.suspended = false)
    (hlen : s.parents.length ≠ 1) : Placed ((s.unlink p).setAwaiter p aw') := by
  refine hs.unlink hp hnot ?_ ?_
  · rw [← hs.parents]
    constructor
    · intro herase
      rcases List.erase_eq_nil_iff.1 herase with hnil | hone
      · exact hnil
      · rw [hone] at hlen
        exact absurd rfl hlen
    · intro hnil
      rw [hnil]
      rfl
  · intro q hq hrun
    rw [hs.sole q hq hrun] at hlen
    exact absurd rfl hlen

theorem Placed.confirms (hs : Placed s) {p : ℕ} {aw aw' : Awaiter} {below : List Frame}
    (hst : s.stack = .awaitCancel p :: below) (hp : s.awaiters.lookup p = some aw)
    (hnot : aw'.checker.state.suspended = false) (hrun : s.wrapped.running = true) :
    Placed ((@State.unlink V Err { s with
      result := .cancelled
      wrapped := { s.wrapped with running := false }
      stack := below } p).setAwaiter p aw') := by
  have hpar : s.parents = [p] := hs.sole p (by rw [hst]; exact List.mem_cons_self) hrun
  have hend := not_ended_of_running hrun
  have hpop : Placed { s with stack := below } := hs.pop hst rfl
  -- No loop of `invoke()` is in progress, so that it does not matter that the operation has ended.
  have hno : ∀ ps, .invoke ps ∉ below := by
    intro ps hps
    cases hend.symm.trans (hpop.woken ps hps)
  have hwait := waiting_unlink (p := p) hpop.nodup
  have haw := hs.of_setAwaiter aw' hp fun h => by simp [hnot] at h
  refine ⟨?_, fun q => ?_, fun q aw'' hq => (haw q aw'' hq).1, fun h => ?_, ?_, ?_, ?_,
    fun q aw'' hq => (haw q aw'' hq).2⟩
  · show (State.unlink { s with stack := below } p).waiting.Nodup
    rw [hwait]
    exact hpop.nodup.filter _
  · show q ∈ (State.unlink { s with stack := below } p).waiting ↔ _
    rw [hwait]
    exact hpop.remove hnot q
  · cases h
  · refine iff_of_true ?_ rfl
    show s.parents.erase p = []
    rw [hpar, List.erase_cons_head]
  · intro ps hps
    obtain ⟨qs, hqs⟩ := mem_unlink_invoke hps
    exact absurd hqs (hno qs)
  · intro q _ h
    cases h

theorem Placed.wakesUp (hs : Placed s) {p : ℕ} {ps : List ℕ} {below : List Frame} {aw : Awaiter}
    {c : Checker} {log : List (Call × Wrapped)} (hst : s.stack = .invoke (p :: ps) :: below)
    (hp : s.awaiters.lookup p = some aw) (hc : aw.checker.resumed = some c) :
    Placed ({ s with stack := .invoke ps :: below, log := log }.setAwaiter p
      { aw with checker := c }) := by
  obtain ⟨-, hnot, -⟩ := suspended_of_resumed hc
  have hend := hs.woken (p :: ps) (by rw [hst]; exact List.mem_cons_self)
  have hnil := hs.parents_of_ended hend
  have hwait : s.waiting = p :: (ps ++ below.flatMap Frame.parents) := by
    simp [State.waiting, hnil, hst, Frame.parents]
  have hwait' : State.waiting { s with stack := .invoke ps :: below, log := log } =
      ps ++ below.flatMap Frame.parents := by
    simp [State.waiting, hnil, Frame.parents]
  have hnodup := hs.nodup
  rw [hwait, List.nodup_cons] at hnodup
  have hfilter : s.waiting.filter (· != p) = ps ++ below.flatMap Frame.parents := by
    rw [hwait, List.filter_cons_of_neg (by simp), List.filter_eq_self]
    intro q hq
    simp only [bne_iff_ne, ne_eq]
    rintro rfl
    exact hnodup.1 hq
  have haw := hs.of_setAwaiter { aw with checker := c } hp fun h => by simp [hnot] at h
  refine ⟨?_, fun q => ?_, fun q aw'' hq => (haw q aw'' hq).1, hs.started, hs.parents, ?_, ?_,
    fun q aw'' hq => (haw q aw'' hq).2⟩
  · show (State.waiting { s with stack := .invoke ps :: below, log := log }).Nodup
    rw [hwait']
    exact hnodup.2
  · show q ∈ State.waiting { s with stack := .invoke ps :: below, log := log } ↔ _
    rw [hwait', ← hfilter]
    exact hs.remove hnot q
  · exact fun _ _ => hend
  · intro q hq
    have hold : .awaitCancel q ∈ below := (List.mem_cons.1 hq).resolve_left (by simp)
    exact hs.sole q (hst ▸ List.mem_cons_of_mem _ hold)

/-- The step lemma. -/
theorem Placed.change {a : Action V Err} (hs : Placed s) (hok : Prompt s a) (h : Change s a t) :
    Placed t := by
  cases h with
  | newAwaiter => exact hs.newAwaiter _
  | asks hp hc =>
    obtain ⟨hnot, hnot'⟩ := suspended_of_readyReturned hc
    refine Placed.setAwaiter_of_not ?_ hp hnot hnot'
    exact hs.congr rfl rfl rfl rfl rfl rfl
  | skips hp _ hc =>
    obtain ⟨hnot, hnot'⟩ := suspended_of_earlyCancelReturned hc
    exact hs.setAwaiter_of_not hp hnot hnot'
  | cancelledEarly hp _ hc =>
    obtain ⟨hnot, hnot'⟩ := suspended_of_earlyCancelReturned hc
    have hset : Placed (s.setResult .cancelled) := hs.congr rfl rfl rfl rfl rfl rfl
    exact hset.setAwaiter_of_not hp hnot hnot'
  | refusedEarly hp _ hc =>
    obtain ⟨hnot, hnot'⟩ := suspended_of_earlyCancelReturned hc
    have hset : Placed ((s.setResult .cancelPending).setWrapped { s.wrapped with refused := true }) :=
      hs.congr rfl rfl rfl rfl rfl rfl
    exact hset.setAwaiter_of_not hp hnot hnot'
  | starts hp hat hc hnil => exact hs.starts hp hat hc hnil hok.1 hok.2
  | joins hp hat hc hne => exact hs.joins hp hat hc hne hok.2
  | cancelsDetached hp hat hrun =>
    have hsus := hs.attached _ _ hp (by rw [hrun]; rfl)
    cases hat.symm.trans hsus
  | cancelsLast hp hat hrun hpar =>
    refine Placed.setAwaiter ?_ hp (by rw [hrun]; rfl) fun _ => hat
    refine { hs with nodup := hs.nodup, waiting := hs.waiting, woken := ?_, sole := ?_ }
    · intro ps hps
      exact hs.woken ps ((List.mem_cons.1 hps).resolve_left (by simp))
    · intro q hq hrun'
      rcases List.mem_cons.1 hq with hq | hq
      · cases hq
        exact hpar
      · exact hs.sole q hq hrun'
  | cancelsOther hp _ _ hlen => exact hs.cancelsOther hp rfl hlen
  | mustResume hp hst =>
    refine Placed.setAwaiter_of_not ?_ hp (by rw [hst]; rfl) ?_
    · exact hs.congr rfl rfl rfl rfl rfl rfl
    · split_ifs <;> rfl
  | resumes hp _ hc =>
    obtain ⟨hnot, hnot'⟩ := suspended_of_aboutToResume hc
    refine Placed.setAwaiter_of_not ?_ hp hnot hnot'
    exact hs.congr rfl rfl rfl rfl rfl rfl
  | drop hp hreset => exact hs.drop hp hreset
  | becomesReady => exact hs.congr rfl rfl rfl rfl rfl rfl
  | completes hrun => exact hs.invoke rfl (hs.started hrun)
  | suspendReturns hst => exact hs.pop hst rfl
  | throws hst hrun => exact (hs.pop hst rfl).invoke rfl (hs.started hrun)
  | confirms hst hp hrun => exact hs.confirms hst hp rfl hrun
  | refuses hst hp =>
    exact (hs.pop hst rfl).setAwaiter hp rfl fun h => hs.attached _ _ hp h
  | invoked hst => exact hs.pop hst rfl
  | wakesUp hst hp hc => exact hs.wakesUp hst hp hc

/-- The run lemma. -/
theorem placed_of_reach {ok : State V Err → Action V Err → Prop}
    (hok : ∀ s a, ok s a → Prompt s a) (h : Reach (step cas) ok (.init : State V Err) s) :
    Placed s :=
  h.invariant placed_init fun s a _ hs ha hstep => hs.change (hok s a ha) (change_of_step hstep)

/-! ### What is cancelled -/

/-- The steps that call `await_cancel()` of the wrapped awaiter. -/
def cancels : State V Err × Action V Err → Bool
  | (s, .awaitCancel p) => match s.awaiters.lookup p with
    | some aw => aw.attached && s.parents.length == 1
    | none => false
  | _ => false

/-- The steps that wake up the parent `p`. -/
def wakes (p : ℕ) : State V Err × Action V Err → Bool
  | (s, .next) => match s.stack with
    | .invoke (q :: _) :: _ => q == p
    | _ => false
  | _ => false

/-- The cancellation of the last parent is in progress, or the operation has ended. -/
def Closing (s : State V Err) : Prop :=
  s.wrapped.ended = true ∨ ∃ p ∈ s.parents, s.isIn p .cancelling

theorem isIn_setAwaiter_of_ne {p q : ℕ} {aw : Awaiter} {st : AwaiterStateChecker.State}
    (hne : q ≠ p) : (s.setAwaiter p aw).isIn q st ↔ s.isIn q st := by
  simp only [State.isIn, State.setAwaiter, lookup_insert_eq, if_neg hne]

theorem isIn_setAwaiter_self {p : ℕ} {aw : Awaiter} {st : AwaiterStateChecker.State} :
    (s.setAwaiter p aw).isIn p st ↔ aw.checker.state = st := by
  simp [State.isIn, State.setAwaiter]

/-- Who is being cancelled is not the one whose awaiter is in another state. -/
theorem ne_of_isIn {p q : ℕ} {aw : Awaiter} {st : AwaiterStateChecker.State}
    (hq : s.isIn q st) (hp : s.awaiters.lookup p = some aw) (hst : aw.checker.state ≠ st) :
    q ≠ p := by
  rintro rfl
  obtain ⟨aw', hq', h⟩ := hq
  cases hp.symm.trans hq'
  exact hst h

theorem ne_cancelling_of_not {st : AwaiterStateChecker.State} (h : st.suspended = false) :
    st ≠ .cancelling := by
  rintro rfl
  cases h

/-- The awaiter of another parent changes. -/
theorem Closing.setAwaiter {p : ℕ} {aw aw' : Awaiter} (hc : Closing s)
    (hpar : t.parents = s.parents) (haw : t.awaiters = s.awaiters)
    (hend : t.wrapped.ended = s.wrapped.ended) (hp : s.awaiters.lookup p = some aw)
    (hst : aw.checker.state ≠ .cancelling) : Closing (t.setAwaiter p aw') := by
  rcases hc with hc | ⟨q, hq, hcan⟩
  · exact .inl (hend.trans hc)
  · refine .inr ⟨q, by rw [← hpar] at hq; exact hq, ?_⟩
    rw [isIn_setAwaiter_of_ne (ne_of_isIn hcan hp hst), State.isIn, haw]
    exact hcan

theorem Closing.change {a : Action V Err} (hs : Placed s) (hok : Prompt s a) (hc : Closing s)
    (h : Change s a t) : Closing t := by
  cases h with
  | newAwaiter =>
    rcases hc with hc | ⟨q, hq, aw, hlook, hcan⟩
    · exact .inl hc
    · refine .inr ⟨q, hq, ?_⟩
      rw [isIn_setAwaiter_of_ne (hs.fresh q aw hlook).ne]
      exact ⟨aw, hlook, hcan⟩
  | asks hp hc' =>
    exact hc.setAwaiter rfl rfl rfl hp (ne_cancelling_of_not (suspended_of_readyReturned hc').1)
  | skips hp _ hc' =>
    exact hc.setAwaiter rfl rfl rfl hp
      (ne_cancelling_of_not (suspended_of_earlyCancelReturned hc').1)
  | cancelledEarly hp _ hc' =>
    exact hc.setAwaiter rfl rfl rfl hp
      (ne_cancelling_of_not (suspended_of_earlyCancelReturned hc').1)
  | refusedEarly hp _ hc' =>
    exact hc.setAwaiter rfl rfl rfl hp
      (ne_cancelling_of_not (suspended_of_earlyCancelReturned hc').1)
  | starts _ _ _ hnil =>
    rcases hc with hc | ⟨q, hq, -⟩
    · cases hok.1.symm.trans hc
    · rw [hnil] at hq
      cases hq
  | joins hp _ hc' =>
    rcases hc with hc | ⟨q, hq, hcan⟩
    · exact .inl hc
    · refine .inr ⟨q, List.mem_append_left _ hq, ?_⟩
      have hne := ne_cancelling_of_not (suspended_of_aboutToSuspend hc').1
      rw [isIn_setAwaiter_of_ne (ne_of_isIn hcan hp hne)]
      exact hcan
  | cancelsDetached hp _ hrun => exact hc.setAwaiter rfl rfl rfl hp (by simp [hrun])
  | cancelsLast hp _ _ hpar =>
    refine .inr ⟨_, ?_, isIn_setAwaiter_self.2 rfl⟩
    show _ ∈ s.parents
    rw [hpar]
    exact List.mem_singleton_self _
  | cancelsOther hp _ hrun =>
    rcases hc with hc | ⟨q, hq, hcan⟩
    · exact .inl hc
    · have hne := ne_of_isIn hcan hp (by simp [hrun])
      refine .inr ⟨q, (List.mem_erase_of_ne hne).2 hq, ?_⟩
      rw [isIn_setAwaiter_of_ne hne]
      exact hcan
  | mustResume hp hst => exact hc.setAwaiter rfl rfl rfl hp (by simp [hst])
  | resumes hp _ hc' =>
    exact hc.setAwaiter rfl rfl rfl hp (ne_cancelling_of_not (suspended_of_aboutToResume hc').1)
  | drop hp hreset =>
    rcases hc with hc | ⟨q, hq, hcan⟩
    · exact .inl hc
    · have hne := ne_of_isIn hcan hp (ne_cancelling_of_not (suspended_of_mayReset hreset))
      refine .inr ⟨q, hq, ?_⟩
      rw [State.isIn, lookup_erase_eq, if_neg hne]
      exact hcan
  | becomesReady => exact hc
  | completes hrun => exact .inl (by simp [Wrapped.ended, hs.started hrun])
  | suspendReturns => exact hc
  | throws _ hrun => exact .inl (by simp [Wrapped.ended, hs.started hrun])
  | confirms _ _ hrun =>
    exact .inl (by simp [Wrapped.ended, State.setAwaiter, State.unlink, hs.started hrun])
  | @refuses p aw below hst hp =>
    rcases hc with hc | ⟨q, hq, hcan⟩
    · exact .inl hc
    · refine .inr ⟨q, hq, ?_⟩
      by_cases hne : q = p
      · subst hne
        obtain ⟨aw', hp', h⟩ := hcan
        cases hp.symm.trans hp'
        exact isIn_setAwaiter_self.2 h
      · rw [isIn_setAwaiter_of_ne hne]
        exact hcan
  | invoked => exact hc
  | wakesUp hst => exact .inl (hs.woken _ (by rw [hst]; exact List.mem_cons_self))

/-- Who calls `await_cancel()` of the wrapped awaiter. -/
theorem cancels_iff {a : Action V Err} (h : Change s a t) : cancels (s, a) = true ↔
    ∃ p aw, a = .awaitCancel p ∧ s.awaiters.lookup p = some aw ∧ s.parents = [p] ∧
      aw.checker.state = .running ∧ t.parents = [p] ∧ t.isIn p .cancelling := by
  cases h with
  | cancelsDetached hp hat =>
    refine iff_of_false (by simp [cancels, hp, hat]) ?_
    rintro ⟨q, aw, hq, -, -, -, -, hcan⟩
    cases hq
    cases isIn_setAwaiter_self.1 hcan
  | cancelsLast hp hat hrun hpar =>
    exact iff_of_true (by simp [cancels, hp, hat, hpar])
      ⟨_, _, rfl, hp, hpar, hrun, hpar, isIn_setAwaiter_self.2 rfl⟩
  | cancelsOther hp hat _ hlen =>
    refine iff_of_false (by simp [cancels, hp, hat, hlen]) ?_
    rintro ⟨q, aw, hq, -, -, -, -, hcan⟩
    cases hq
    cases isIn_setAwaiter_self.1 hcan
  | _ =>
    refine iff_of_false (by simp [cancels]) ?_
    rintro ⟨q, aw, hq, -⟩
    cases hq

/-- `await_cancel()` of the wrapped awaiter has been called at most once, and if it has, then the
operation is being cancelled or has ended. -/
theorem cancels_of_run {ok : State V Err → Action V Err → Prop}
    (hok : ∀ s a, ok s a → Prompt s a) {l : List (State V Err × Action V Err)}
    (h : Run (step cas) ok (.init : State V Err) l s) :
    l.countP cancels = 0 ∨ l.countP cancels = 1 ∧ Closing s := by
  refine h.invariant_of (J := fun _ s => Placed s)
    (I := fun l s => l.countP cancels = 0 ∨ l.countP cancels = 1 ∧ Closing s)
    (fun _ _ hr => placed_of_reach hok hr.reach) (.inl rfl) ?_
  intro l s a t hs hc ha hstep
  have hch := change_of_step hstep
  rw [List.countP_append, List.countP_singleton]
  by_cases hcan : cancels (s, a) = true
  · obtain ⟨p, aw, -, hp, hpar, hrun, hpar', hin⟩ := (cancels_iff hch).1 hcan
    rw [if_pos hcan]
    rcases hc with h0 | ⟨-, hend | ⟨q, hq, hin'⟩⟩
    · exact .inr ⟨by omega, .inr ⟨p, by simp [hpar'], hin⟩⟩
    · -- The operation has ended, so nobody waits for it.
      have hnil := hs.parents_of_ended hend
      rw [hpar] at hnil
      cases hnil
    · -- The one who waits is being cancelled already.
      rw [hpar, List.mem_singleton] at hq
      exact absurd hq (ne_of_isIn hin' hp (by simp [hrun]))
  · rw [if_neg hcan, Nat.add_zero]
    exact hc.imp_right (And.imp_right fun hc => hc.change hs (hok s a ha) hch)

/-! ### What a cancelled parent sees -/

/-- The cancellation of the parent `p` has succeeded. -/
structure Gone (s : State V Err) (p : ℕ) : Prop where
  issued : p < s.nextId
  cancelled : ∀ aw, s.awaiters.lookup p = some aw → aw.checker.state = .cancelled

/-- What is left of the awaiter of a parent stays as it is. -/
theorem Gone.setAwaiter {p q : ℕ} {aw aw' : Awaiter} (hg : Gone s p) (hn : t.nextId = s.nextId)
    (haw : t.awaiters = s.awaiters) (hq : s.awaiters.lookup q = some aw)
    (hst : aw.checker.state = .cancelled → aw'.checker.state = .cancelled) :
    Gone (t.setAwaiter q aw') p := by
  refine ⟨hn ▸ hg.issued, fun aw'' h => ?_⟩
  simp only [State.setAwaiter, lookup_insert_eq, haw] at h
  split_ifs at h with hpq
  · cases h
    subst hpq
    exact hst (hg.cancelled aw hq)
  · exact hg.cancelled aw'' h

theorem Gone.change {a : Action V Err} {p : ℕ} (hg : Gone s p) (h : Change s a t) : Gone t p := by
  cases h with
  | newAwaiter =>
    refine ⟨hg.issued.trans (Nat.lt_succ_self _), fun aw h => ?_⟩
    simp only [State.setAwaiter, lookup_insert_eq, if_neg hg.issued.ne] at h
    exact hg.cancelled aw h
  | asks hp hc =>
    exact hg.setAwaiter rfl rfl hp fun h => by simp [Checker.readyReturned, h] at hc
  | skips hp _ hc =>
    exact hg.setAwaiter rfl rfl hp fun h => by simp [Checker.earlyCancelReturned, h] at hc
  | cancelledEarly hp _ hc =>
    exact hg.setAwaiter rfl rfl hp fun h => by simp [Checker.earlyCancelReturned, h] at hc
  | refusedEarly hp _ hc =>
    exact hg.setAwaiter rfl rfl hp fun h => by simp [Checker.earlyCancelReturned, h] at hc
  | starts hp _ hc =>
    exact hg.setAwaiter rfl rfl hp fun h => by simp [Checker.aboutToSetExecutor, h] at hc
  | joins hp _ hc =>
    exact hg.setAwaiter rfl rfl hp fun h => by simp [Checker.aboutToSetExecutor, h] at hc
  | cancelsDetached hp => exact hg.setAwaiter rfl rfl hp fun _ => rfl
  | cancelsLast hp _ hrun => exact hg.setAwaiter rfl rfl hp fun h => by cases hrun.symm.trans h
  | cancelsOther hp => exact hg.setAwaiter rfl rfl hp fun _ => rfl
  | mustResume hp hst => exact hg.setAwaiter rfl rfl hp fun h => by cases hst.symm.trans h
  | resumes hp _ hc =>
    exact hg.setAwaiter rfl rfl hp fun h => by simp [Checker.aboutToResume, h] at hc
  | drop => exact ⟨hg.issued, fun aw h => hg.cancelled aw (lookup_of_lookup_erase h)⟩
  | becomesReady => exact ⟨hg.issued, hg.cancelled⟩
  | completes => exact ⟨hg.issued, hg.cancelled⟩
  | suspendReturns => exact ⟨hg.issued, hg.cancelled⟩
  | throws => exact ⟨hg.issued, hg.cancelled⟩
  | confirms _ hp => exact hg.setAwaiter rfl rfl hp fun _ => rfl
  | refuses _ hp => exact hg.setAwaiter rfl rfl hp id
  | invoked => exact ⟨hg.issued, hg.cancelled⟩
  | wakesUp _ hp hc => exact hg.setAwaiter rfl rfl hp fun h => by simp [Checker.resumed, h] at hc

theorem Gone.not_wakes {a : Action V Err} {p : ℕ} (hs : Placed s) (hg : Gone s p) :
    wakes p (s, a) = false := by
  cases a with
  | next =>
    simp only [wakes]
    split
    · rename_i q ps below hst
      rw [beq_eq_false_iff_ne]
      rintro rfl
      have hmem : q ∈ s.waiting := by simp [State.waiting, hst, Frame.parents]
      obtain ⟨aw, hq, hsus⟩ := (hs.waiting q).1 hmem
      rw [hg.cancelled aw hq] at hsus
      cases hsus
    · rfl
  | _ => rfl

/-- Nobody is woken up after its cancellation has succeeded. -/
theorem Gone.not_wakes_of_run {ok : State V Err → Action V Err → Prop}
    (hok : ∀ s a, ok s a → Prompt s a) {l : List (State V Err × Action V Err)} {p : ℕ}
    (hs : Placed s) (hg : Gone s p) (h : Run (step cas) ok s l t) :
    ∀ x ∈ l, wakes p x = false := by
  have hinv : (Placed t ∧ Gone t p) ∧ ∀ x ∈ l, wakes p x = false := by
    refine h.invariant (I := fun l t => (Placed t ∧ Gone t p) ∧ ∀ x ∈ l, wakes p x = false)
      ⟨⟨hs, hg⟩, by simp⟩ ?_
    rintro l u a v ⟨⟨hs, hg⟩, hl⟩ ha hstep
    have hch := change_of_step hstep
    refine ⟨⟨hs.change (hok u a ha) hch, hg.change hch⟩, fun x hx => ?_⟩
    rcases List.mem_append.1 hx with hx | hx
    · exact hl x hx
    · rw [List.mem_singleton.1 hx]
      exact hg.not_wakes hs
  exact hinv.2

/-! ### The result -/

/-- The parent whose cancellation goes to the wrapped awaiter is the only one that waits. -/
theorem Placed.waiting_of_cancels (hs : Placed s) {p : ℕ} {aw : Awaiter}
    (hp : s.awaiters.lookup p = some aw) (hrun : aw.checker.state = .running)
    (hlen : s.parents.length = 1) : s.parents = [p] ∧ s.waiting = [p] := by
  have hmem : p ∈ s.waiting := (hs.mem_waiting hp).2 (by rw [hrun]; rfl)
  have hne : s.wrapped.ended = false := by
    by_contra hend
    rw [hs.parents_of_ended (by simpa using hend)] at hlen
    cases hlen
  have hwait := hs.waiting_of_not_ended hne
  obtain ⟨q, hq⟩ := List.length_eq_one_iff.1 hlen
  rw [hwait, hq, List.mem_singleton] at hmem
  rw [hwait, hq, hmem]
  exact ⟨rfl, rfl⟩

/-- A parent that is suspended can be cancelled. -/
theorem Placed.exists_cancel (cas : Bool) (hs : Placed s) {p : ℕ} (hrun : s.isIn p .running) :
    ∃ t, step cas s (.awaitCancel p) = .ok t ∧
      (cancels (s, .awaitCancel p) = true → s.waiting = [p]) ∧
      (cancels (s, .awaitCancel p) = false → t.isIn p .cancelled ∧ t.result = s.result ∧
        t.wrapped = s.wrapped ∧ t.waiting = s.waiting.erase p ∧
        ∀ q, q ≠ p → t.awaiters.lookup q = s.awaiters.lookup q) := by
  obtain ⟨aw, hp, hst⟩ := hrun
  have hat := hs.attached p aw hp (by rw [hst]; rfl)
  have hstep : step cas s (.awaitCancel p) = s.cancel p aw := by
    simp only [step, Action.caller, hp, State.perform]
  by_cases hlen : s.parents.length = 1
  · obtain ⟨hpar, hwait⟩ := hs.waiting_of_cancels hp hst hlen
    refine ⟨((s.setResult .cancelling).setAwaiter p
      { aw with checker := aw.checker.set .cancelling }).enter (.awaitCancel p), ?_,
      fun _ => hwait, fun hno => ?_⟩
    · rw [hstep]
      simp [State.cancel, Checker.aboutToCancel, hst, hat, hpar]
    · simp [cancels, hp, hat, hlen] at hno
  · refine ⟨(s.unlink p).setAwaiter p
      { aw with attached := false, checker := aw.checker.set .cancelled }, ?_, fun hyes => ?_,
      fun _ => ⟨isIn_setAwaiter_self.2 rfl, rfl, rfl, ?_, fun q hne => ?_⟩⟩
    · rw [hstep]
      simp [State.cancel, Checker.aboutToCancel, hst, hat, hlen, State.check,
        Checker.cancelReturned, Checker.set]
    · simp [cancels, hp, hat, hlen] at hyes
    · show (s.unlink p).waiting = _
      rw [waiting_unlink hs.nodup, hs.nodup.erase_eq_filter]
    · simp only [State.setAwaiter, lookup_insert_eq, if_neg hne]
      rfl

/-- As long as no parent suspends after the operation has ended or in the middle of its
cancellation: the wrapped awaiter is cancelled at most once, and only on behalf of the last parent;
cancelling any other parent succeeds at once and concerns nobody else; and no parent is woken up
after its cancellation has succeeded. -/
theorem cancelled_once {l : List (State V Err × Action V Err)}
    (h : Run (step cas) Prompt (.init : State V Err) l s) :
    l.countP cancels ≤ 1 ∧
    (∀ p, s.isIn p .running → ∃ t, step cas s (.awaitCancel p) = .ok t ∧
      (cancels (s, .awaitCancel p) = true → s.waiting = [p]) ∧
      (cancels (s, .awaitCancel p) = false → t.isIn p .cancelled ∧ t.result = s.result ∧
        t.wrapped = s.wrapped ∧ t.waiting = s.waiting.erase p ∧
        ∀ q, q ≠ p → t.awaiters.lookup q = s.awaiters.lookup q)) ∧
    ∀ p, s.isIn p .cancelled → ∀ l' t, Run (step cas) Prompt s l' t →
      ∀ x ∈ l', wakes p x = false := by
  have hok : ∀ (s : State V Err) a, Prompt s a → Prompt s a := fun _ _ ha => ha
  have hs := placed_of_reach hok h.reach
  refine ⟨?_, fun p => hs.exists_cancel cas, ?_⟩
  · rcases cancels_of_run hok h with h0 | ⟨h1, -⟩ <;> omega
  · rintro p ⟨aw, hp, hst⟩ l' t hrun
    have hg : Gone s p := by
      refine ⟨hs.fresh p aw hp, fun aw' hp' => ?_⟩
      cases hp.symm.trans hp'
      exact hst
    exact hg.not_wakes_of_run hok hs hrun

/-- Two parents wait, the operation completes, and the first parent is woken up; it cancels the
second one. -/
def cancelsTheOther : List (Action ℕ ℕ) :=
  [.newAwaiter false, .newAwaiter false, .awaitReady 0, .awaitSuspend 0, .suspendReturns,
    .awaitReady 1, .awaitSuspend 1, .resumes true, .next]

theorem cancelled_once_cancelsTheOther :
    ∃ s t, exec (step false) (.init : State ℕ ℕ) cancelsTheOther = .ok s ∧ s.isIn 1 .running ∧
      step false s (.awaitCancel 1) = .ok t ∧ t.isIn 1 .cancelled ∧ t.waiting = [] := by
  have hm : Meets (step false) Prompt (.init : State ℕ ℕ) cancelsTheOther := by decide
  have hrun : ∃ s, exec (step false) (.init : State ℕ ℕ) cancelsTheOther = .ok s ∧
      s.isIn 1 .running ∧ cancels (s, .awaitCancel 1) = false ∧ s.waiting = [1] :=
    ⟨_, rfl, ⟨_, rfl, rfl⟩, rfl, rfl⟩
  obtain ⟨s, he, hin, hno, hwait⟩ := hrun
  obtain ⟨t, hstep, -, hother⟩ := (cancelled_once (run_of_exec hm he)).2.1 1 hin
  obtain ⟨hcan, -, -, hwait', -⟩ := hother hno
  exact ⟨s, t, he, hin, hstep, hcan, by rw [hwait', hwait]; rfl⟩

/-- A parent is cancelled, but the operation completes; before the parent has taken the result,
another one arrives and is cancelled. -/
def arrivesAfterwards : List (Action ℕ ℕ) :=
  [.newAwaiter false, .awaitReady 0, .awaitSuspend 0, .suspendReturns, .awaitCancel 0,
    .cancelReturns false, .resumes true, .next, .next, .newAwaiter false, .awaitReady 1,
    .awaitSuspend 1, .suspendReturns, .awaitCancel 1]

/-- So `await_cancel()` of the wrapped awaiter can be called a second time. -/
theorem not_cancelled_once :
    ¬ ∀ (l : List (State ℕ ℕ × Action ℕ ℕ)) (s : State ℕ ℕ),
      Run (step false) Unforwarded .init l s → l.countP cancels ≤ 1 := by
  intro h
  have hm : Meets (step false) Unforwarded (.init : State ℕ ℕ) arrivesAfterwards := by
    refine meets_of_forall (fun a ha s => ?_) _
    fin_cases ha <;> trivial
  have hrun : ∃ s, exec (step false) (.init : State ℕ ℕ) arrivesAfterwards = .ok s := ⟨_, rfl⟩
  obtain ⟨s, he⟩ := hrun
  have hone := h _ s (run_of_exec hm he)
  have htwo : (history (step false) (.init : State ℕ ℕ) arrivesAfterwards).countP cancels = 2 := by
    decide
  omega

end Corral.Shared
