import Corral.Nursery.Custody

/-!
# Tasks are counted off once

`NurseryBase::continuation()` takes a task that is done off the list and counts it off.
`NurseryBase::adopt()` cancels the promise, in a nursery that is being cancelled, before it links
it; and the promise may be done before it is linked.

* `finishes`: the task that a step counts off;
* `Linkage`: what is counted is what is linked, and a task that is linked is not done;
* `counted_off_once`: so it is in every run in which no task is counted off while it is still
  being adopted.
-/

namespace Corral.Nursery

open ActionMachine Registry

variable {Err : Type*} {s t : State Err} {g g' : Ledger Err} {off : List ℕ}

/-- The task that is counted off. -/
def finishes (s : State Err) : Action Err → Option ℕ
  | .next => match s.stack with
    | .continuation .nursery q :: _ => q
    | .continuation .scope q :: _ => q
    | _ => none
  | _ => none

/-- No task is counted off while it is still being adopted. -/
def AdoptedFirst (s : State Err) (a : Action Err) : Prop :=
  ∀ p ∈ finishes s a, p ∉ s.ledger.adoptions

instance (s : State Err) (a : Action Err) : Decidable (AdoptedFirst s a) :=
  inferInstanceAs (Decidable (∀ p ∈ finishes s a, p ∉ s.ledger.adoptions))

/-- The promise has not reported to the nursery, or is about to. -/
def Ledger.Unfinished (g : Ledger Err) (p : ℕ) : Prop :=
  ∃ par, (∀ a, par ≠ .starter a) ∧
    (g.parents p = some (some par) ∨ .continuation par (some p) ∈ g.calls)

/-- What is counted is what is linked, a task that is linked or being handed over is not done, and
`off` have been counted off. -/
structure Linkage (off : List ℕ) (g : Ledger Err) : Prop where
  counted : g.taskCount = UInt32.ofNat g.tasks.length
  once : off.Nodup
  gone : ∀ p ∈ off, p < g.nextId ∧ g.held p = 0 ∧ ∀ par, g.parents p ≠ some (some par)
  unfinished : ∀ p ∈ g.tasks, g.Unfinished p
  adopting : ∀ p a, .adopt p (.starter a) ∈ g.calls → g.Unfinished p
  destroyed : ∀ p, .destroy p ∈ g.duties → p ∈ off

namespace Linkage

/-- No task is linked or counted off. -/
theorem of_frame (hi : Linkage off g) (ht : g'.tasks = g.tasks) (hc : g'.taskCount = g.taskCount)
    (hn : g.nextId ≤ g'.nextId) (hheld : ∀ p < g.nextId, g'.held p ≤ g.held p)
    (hpar : ∀ p par, g'.parents p = some (some par) →
      g.parents p = some (some par) ∨ g.nextId ≤ p ∨ 0 < g.held p)
    (hun : ∀ p, 0 < g.inNursery p → g.Unfinished p → g'.Unfinished p)
    (had : ∀ p a, .adopt p (.starter a) ∈ g'.calls →
      .adopt p (.starter a) ∈ g.calls ∨ g'.Unfinished p)
    (hd : ∀ p, .destroy p ∈ g'.duties → .destroy p ∈ g.duties) : Linkage off g' := by
  refine ⟨by rw [hc, ht, hi.counted], hi.once, fun p hp => ?_, fun p hp => ?_, fun p a hf => ?_,
    fun p hp => hi.destroyed p (hd p hp)⟩
  · obtain ⟨hlt, hzero, hno⟩ := hi.gone p hp
    refine ⟨hlt.trans_le hn, Nat.le_zero.1 (hzero ▸ hheld p hlt), fun par h => ?_⟩
    rcases hpar p par h with h | h | h
    · exact hno par h
    · omega
    · omega
  · rw [ht] at hp
    refine hun p ?_ (hi.unfinished p hp)
    exact Nat.add_pos_left (List.count_pos_iff.2 hp) _
  · rcases had p a hf with hf | hf
    · refine hun p (Nat.add_pos_right _ (List.count_pos_iff.2 ?_)) (hi.adopting p a hf)
      exact List.mem_filterMap.2 ⟨_, hf, rfl⟩
    · exact hf

/-- Only what the nursery and the start awaiters know of each other changes. -/
theorem of_same (hi : Linkage off g) (ht : g'.tasks = g.tasks) (hc : g'.taskCount = g.taskCount)
    (hn : g.nextId ≤ g'.nextId) (hheld : ∀ p < g.nextId, g'.held p ≤ g.held p)
    (hpar : g'.parents = g.parents) (hcalls : g'.calls = g.calls)
    (hd : ∀ p, .destroy p ∈ g'.duties → .destroy p ∈ g.duties) : Linkage off g' := by
  refine hi.of_frame ht hc hn hheld (fun p par h => Or.inl (hpar ▸ h)) (fun p _ h => ?_)
    (fun p a hf => Or.inl (hcalls ▸ hf)) hd
  unfold Ledger.Unfinished at h ⊢
  rwa [hpar, hcalls]

theorem stores (hi : Linkage off g) (h : g.Stores g') : Linkage off g' := by
  obtain ⟨e, c, ps, -, -, rfl⟩ := h
  refine hi.of_same rfl rfl le_rfl (fun _ _ => le_rfl) rfl rfl fun p hp => ?_
  simpa using hp

theorem unqueue (hi : Linkage off g) (cb : Callback) :
    Linkage off { g with duties := g.duties.erase cb } :=
  hi.of_same rfl rfl le_rfl (fun _ _ => le_rfl) rfl rfl fun _ => List.mem_of_mem_erase

theorem push (hi : Linkage off g) {f : Frame} (hf : f.adopting = none) :
    Linkage off (g.push f) := by
  refine hi.of_frame rfl rfl le_rfl (fun p _ => ?_) (fun p par h => Or.inl h) (fun p _ h => ?_)
    (fun p a hmem => Or.inl ?_) fun p hp => hp
  · exact (g.held_push hf p).le
  · obtain ⟨par, hne, h⟩ := h
    exact ⟨par, hne, h.imp_right (List.mem_cons_of_mem f)⟩
  · rcases List.mem_cons.1 hmem with heq | hmem
    · rw [← heq] at hf
      cases hf
    · exact hmem

/-- A call returns that is not the nursery's for a task that is done. -/
theorem pop (hi : Linkage off g) {f : Frame} {cs : List Frame} (hcs : g.calls = f :: cs)
    (had : f.adopting = none) (hf : ∀ par p, (∀ a, par ≠ .starter a) → f ≠ .continuation par (some p)) :
    Linkage off { g with calls := cs } := by
  refine hi.of_frame rfl rfl le_rfl (fun p _ => (Ledger.held_pop hcs had p).le)
    (fun p par h => Or.inl h) (fun p _ h => ?_)
    (fun p a hmem => Or.inl (hcs ▸ List.mem_cons_of_mem f hmem)) fun p hp => hp
  obtain ⟨par, hne, h⟩ := h
  refine ⟨par, hne, h.imp_right fun hmem => ?_⟩
  rw [hcs] at hmem
  exact (List.mem_cons.1 hmem).resolve_left fun heq => hf par p hne heq.symm

theorem closeIfFinished (hi : Linkage off g) : Linkage off g.closeIfFinished := by
  unfold Ledger.closeIfFinished
  split_ifs
  · have hset : Linkage off { g with parent := false, executor := false } :=
      hi.of_same rfl rfl le_rfl (fun _ _ => le_rfl) rfl rfl fun _ h => h
    exact hset.push rfl
  · exact hi

/-- A start awaiter changes something else than the promise it holds. -/
theorem setStarter (hi : Linkage off g) {a : ℕ} {st st' : Starter Err}
    (ha : g.starters.lookup a = some st) (hp : st'.promise = st.promise) :
    Linkage off (g.setStarter a st') :=
  hi.of_same rfl rfl le_rfl (fun q _ => (Ledger.held_setStarter ha hp q).le) rfl rfl fun _ h => h

theorem cancelled (hi : Linkage off g) (par : Parent) : Linkage off (g.cancelled par) := by
  unfold Ledger.cancelled
  split
  · split
    · rename_i ha
      exact hi.setStarter ha rfl
    · exact hi
  · exact hi

/-- A start awaiter makes a promise. -/
theorem startPending (hi : Linkage off g) (hlt : ∀ p, 0 < g.inNursery p → p < g.nextId) {a n : ℕ}
    {st st' : Starter Err} (ha : g.starters.lookup a = some st) (hp : st.promise = none)
    (hp' : st'.promise = some g.nextId) :
    Linkage off (({ g with pendingTaskCount := n, nextId := g.nextId + 1 }.setStarter a
      st').setParent g.nextId (some (.starter a))) := by
  refine hi.of_frame rfl rfl (Nat.le_succ _) (fun q hq => ?_) (fun q par h => ?_)
    (fun q hin h => ?_) (fun q b hmem => Or.inl hmem) fun q hq => hq
  · have hpl := g.held_pledge ha hp hp' q
    rw [if_neg hq.ne', Nat.add_zero] at hpl
    exact hpl.le
  · rw [Ledger.parents_setParent] at h
    split_ifs at h with hq
    · exact Or.inr (Or.inl hq.ge)
    · exact Or.inl h
  · obtain ⟨par, hns, h⟩ := h
    refine ⟨par, hns, h.imp_left fun h => ?_⟩
    rw [Ledger.parents_setParent, if_neg (hlt q hin).ne]
    exact h

theorem addPromise (hi : Linkage off g) (hlt : ∀ p, 0 < g.inNursery p → p < g.nextId)
    (par : Parent) (hpar : ∀ a, par ≠ .starter a) : Linkage off (g.addPromise par) := by
  refine hi.of_frame rfl rfl (Nat.le_succ _) (fun p hp => (g.held_addPromise_of_lt par hp).le)
    (fun p par' h => Or.inl ?_) (fun p hin h => ?_) (fun p a hmem => Or.inl ?_) fun p hp => hp
  · rw [Ledger.parents_addPromise] at h
    split_ifs at h
    · cases h
    · exact h
  · obtain ⟨par', hns, h⟩ := h
    refine ⟨par', hns, h.imp (fun h => ?_) (List.mem_cons_of_mem _)⟩
    rwa [Ledger.parents_addPromise, if_neg (hlt p hin).ne]
  · rcases List.mem_cons.1 hmem with heq | hmem
    · cases heq
      exact absurd rfl (hpar a)
    · exact hmem

/-- A promise is destroyed that the nursery does not hold. -/
theorem destroy (hi : Linkage off g) {p : ℕ} (hp : g.inNursery p = 0) : Linkage off (g.destroy p) := by
  have hnot : p ∉ g.tasks := fun hmem => by
    have := List.count_pos_iff.2 hmem
    simp only [Ledger.inNursery] at hp
    omega
  refine hi.of_frame (List.erase_of_not_mem hnot) rfl le_rfl
    (fun q _ => g.held_eraseTasks_le p q) (fun q par h => Or.inl ?_) (fun q hin h => ?_)
    (fun q a hmem => Or.inl hmem) fun q hq => hq
  · rw [Ledger.parents_destroy] at h
    split_ifs at h
    exact h
  · have hq : q ≠ p := fun heq => by
      rw [heq, hp] at hin
      cases hin
    obtain ⟨par, hns, h⟩ := h
    refine ⟨par, hns, h.imp_left fun h => ?_⟩
    rwa [Ledger.parents_destroy, if_neg hq]

/-- A promise is done, and its parent is called. -/
theorem finish (hi : Linkage off g) {p : ℕ} {par : Parent} (hp : g.parents p = some (some par))
    (hno : ∀ f ∈ g.calls, f.called = none) : Linkage off (g.finish p par) := by
  have hheld : ∀ q, (g.finish p par).held q = g.held q := fun q =>
    (g.setParent p none).held_push rfl q
  refine hi.of_frame rfl rfl le_rfl (fun q _ => (hheld q).le) (fun q par' h => Or.inl ?_)
    (fun q _ h => ?_) (fun q a hmem => Or.inl ?_) fun q hq => hq
  · rw [Ledger.parents_finish] at h
    split_ifs at h
    · cases h
    · exact h
  · obtain ⟨par', hns, h⟩ := h
    by_cases hq : q = p
    · subst hq
      have hold : g.parents q = some (some par') := h.resolve_right fun hmem => by
        have := hno _ hmem
        cases this
      rw [hp] at hold
      cases hold
      exact ⟨par, hns, Or.inr List.mem_cons_self⟩
    · refine ⟨par', hns, h.imp (fun h => ?_) (List.mem_cons_of_mem _)⟩
      rwa [Ledger.parents_finish, if_neg hq]
  · exact (List.mem_cons.1 hmem).resolve_left (by simp)

/-- A start awaiter hands its promise over. -/
theorem handOff (hi : Linkage off g) {a p n : ℕ} {st st' : Starter Err}
    (ha : g.starters.lookup a = some st) (hp : st.promise = some p)
    (hp' : st'.promise = none) :
    Linkage off ((({ g with pendingTaskCount := n }.setStarter a st').setParent p
      (some .nursery)).push (.adopt p (.starter a))) := by
  set g' := (({ g with pendingTaskCount := n }.setStarter a st').setParent p
    (some .nursery)).push (.adopt p (.starter a)) with hg'
  have hself : g'.parents p = some (some .nursery) := Function.update_self _ _ _
  have hne : ∀ q, q ≠ p → g'.parents q = g.parents q := fun q h => Function.update_of_ne h _ _
  have hnew : g'.Unfinished p := ⟨.nursery, by simp, Or.inl hself⟩
  have hheld : ∀ q, g'.held q = g.held q := fun q =>
    (Ledger.held_push_adopt _ _ _ q).trans (g.held_release ha hp hp' q)
  refine hi.of_frame rfl rfl le_rfl (fun q _ => (hheld q).le) (fun q par h => ?_) (fun q _ h => ?_)
    (fun q b hmem => ?_) fun q hq => hq
  · by_cases hq : q = p
    · rw [hq]
      exact Or.inr (Or.inr (Nat.add_pos_right _ (g.pledged_pos ha hp)))
    · exact Or.inl (hne q hq ▸ h)
  · by_cases hq : q = p
    · rw [hq]
      exact hnew
    · obtain ⟨par, hns, h⟩ := h
      exact ⟨par, hns, h.imp (fun h => (hne q hq).trans h) (List.mem_cons_of_mem _)⟩
  · rcases List.mem_cons.1 hmem with heq | hmem
    · cases heq
      exact Or.inr hnew
    · exact Or.inl hmem

/-- `adopt()` links the promise, which is not done. -/
theorem adopted (hi : Linkage off g) (hc : Custody g) {p : ℕ} {par : Parent} {cs : List Frame}
    (hcs : g.calls = .adopt p par :: cs) {par' : Parent} (hns : ∀ a, par' ≠ .starter a) :
    Linkage off ({ g with
      calls := cs
      tasks := g.tasks.erase p ++ [p]
      taskCount := g.taskCount + 1 }.setParent p (some par')) := by
  have hnot := hc.not_linked hcs
  set g₁ : Ledger Err := { g with
    calls := cs
    tasks := g.tasks.erase p ++ [p]
    taskCount := g.taskCount + 1 } with hg₁
  have hheld : ∀ q, g₁.held q = g.held q := fun q =>
    congrArg (· + g.pledged q) (Ledger.inNursery_adopted (g.taskCount + 1) hcs hnot q)
  have hpos : 0 < g.held p := by
    rw [← hheld, Ledger.held, Ledger.inNursery, hg₁, List.count_append, List.count_cons_self]
    omega
  have hparents : ∀ q, g.Unfinished q → q ≠ p →
      (g₁.setParent p (some par')).Unfinished q := by
    rintro q ⟨par₁, hne, h⟩ hq
    refine ⟨par₁, hne, h.imp (fun h => ?_) fun hmem => ?_⟩
    · rwa [Ledger.parents_setParent, if_neg hq]
    · rw [hcs] at hmem
      exact (List.mem_cons.1 hmem).resolve_left (by simp)
  have hself : (g₁.setParent p (some par')).Unfinished p :=
    ⟨par', hns, Or.inl (by rw [Ledger.parents_setParent, if_pos rfl])⟩
  refine ⟨?_, hi.once, fun q hq => ?_, fun q hq => ?_, fun q a hmem => ?_, hi.destroyed⟩
  · show g.taskCount + 1 = UInt32.ofNat (g.tasks.erase p ++ [p]).length
    rw [List.erase_of_not_mem hnot, List.length_append, hi.counted]
    simp
  · obtain ⟨hlt, hzero, hnone⟩ := hi.gone q hq
    have hqp : q ≠ p := fun heq => by
      rw [heq] at hzero
      omega
    refine ⟨hlt, (hheld q).trans hzero, fun par₁ h => hnone par₁ ?_⟩
    rwa [Ledger.parents_setParent, if_neg hqp] at h
  · by_cases hqp : q = p
    · exact hqp ▸ hself
    · have hmem : q ∈ g.tasks := by
        have hq' : q ∈ g.tasks.erase p ++ [p] := hq
        rw [List.erase_of_not_mem hnot] at hq'
        simpa [hqp] using hq'
      exact hparents q (hi.unfinished q hmem) hqp
  · by_cases hqp : q = p
    · exact hqp ▸ hself
    · exact hparents q (hi.adopting q a (hcs ▸ List.mem_cons_of_mem _ hmem)) hqp

/-- `continuation()` takes the task off the list, and counts it off. -/
theorem countOff (hi : Linkage off g) (hc : Custody g) {p : ℕ} {par : Parent} {cs : List Frame}
    (hcs : g.calls = .continuation par (some p) :: cs) (hp : g.parents p = some none)
    (hmem : p ∈ g.tasks) :
    Linkage (off ++ [p]) ({ g with calls := cs }.eraseTask p) := by
  have hpos : 0 < g.tasks.count p := List.count_pos_iff.2 hmem
  have hone := hc.once p
  have hheld : ∀ q, ({ g with calls := cs }.eraseTask p).held q ≤ g.held q := fun q =>
    (Ledger.held_eraseTasks_le _ p q).trans (Ledger.held_pop hcs rfl q).le
  have hzero : ({ g with calls := cs }.eraseTask p).held p = 0 := by
    have hin : ({ g with calls := cs }.eraseTask p).held p =
        (g.tasks.erase p).count p + { g with calls := cs }.adoptions.count p + g.pledged p := rfl
    have had : { g with calls := cs }.adoptions = g.adoptions := by
      rw [Ledger.adoptions_cons hcs]
      rfl
    rw [hin, had, List.count_erase_self]
    simp only [Ledger.held, Ledger.inNursery] at hone
    omega
  have hparents : ∀ q, g.Unfinished q → q ≠ p →
      ({ g with calls := cs }.eraseTask p).Unfinished q := by
    rintro q ⟨par₁, hne, h⟩ hq
    refine ⟨par₁, hne, h.imp_right fun hf => ?_⟩
    rw [hcs] at hf
    refine (List.mem_cons.1 hf).resolve_left fun heq => ?_
    cases heq
    exact hq rfl
  refine ⟨?_, ?_, fun q hq => ?_, fun q hq => ?_, fun q a hf => ?_, fun q hq => ?_⟩
  · show g.taskCount - 1 = UInt32.ofNat (g.tasks.erase p).length
    rw [List.length_erase_of_mem hmem, UInt32.ofNat_sub (List.length_pos_of_mem hmem), hi.counted]
    rfl
  · refine hi.once.append (List.nodup_singleton p) ?_
    rw [List.disjoint_singleton]
    intro hoff
    have := (hi.gone p hoff).2.1
    simp only [Ledger.held, Ledger.inNursery] at this
    omega
  · rcases List.mem_append.1 hq with hq | hq
    · obtain ⟨hlt, hz, hnone⟩ := hi.gone q hq
      exact ⟨hlt, Nat.le_zero.1 (hz ▸ hheld q), hnone⟩
    · rw [List.mem_singleton.1 hq]
      refine ⟨hc.lt_of_parents hp, hzero, fun par₁ h => ?_⟩
      have h' : g.parents p = some (some par₁) := h
      rw [hp] at h'
      cases h'
  · have hq' : q ∈ g.tasks.erase p := hq
    have hqp : q ≠ p := fun heq => by
      have := List.count_pos_iff.2 hq'
      rw [heq, List.count_erase_self] at this
      simp only [Ledger.held, Ledger.inNursery] at hone
      omega
    exact hparents q (hi.unfinished q (List.mem_of_mem_erase hq')) hqp
  · have hqp : q ≠ p := fun heq => by
      have had : 0 < g.adoptions.count p := by
        refine List.count_pos_iff.2 (List.mem_filterMap.2 ⟨_, hcs ▸ List.mem_cons_of_mem _ hf, ?_⟩)
        rw [heq]
        rfl
      simp only [Ledger.held, Ledger.inNursery] at hone
      omega
    exact hparents q (hi.adopting q a (hcs ▸ List.mem_cons_of_mem _ hf)) hqp
  · rcases List.mem_append.1 hq with hq | hq
    · exact List.mem_append_left _ (hi.destroyed q hq)
    · cases List.mem_singleton.1 hq
      simp

end Linkage

/-- A task is counted off when it reports to the nursery or to its scope. -/
theorem stack_of_finishes {a : Action Err} {p : ℕ} (h : finishes s a = some p) :
    ∃ par below, a = .next ∧ s.stack = .continuation par (some p) :: below ∧
      ∀ b, par ≠ .starter b := by
  unfold finishes at h
  split at h
  · split at h
    · rename_i q below hst
      exact ⟨_, below, rfl, h ▸ hst, by simp⟩
    · rename_i q below hst
      exact ⟨_, below, rfl, h ▸ hst, by simp⟩
    · cases h
  · cases h

/-- The task that is counted off reports to the nursery, or to its scope. -/
theorem finishes_continuation {par : Parent} {q : Option ℕ} {below : List Frame}
    (hst : s.stack = .continuation par q :: below) (hpar : ∀ a, par ≠ .starter a) :
    finishes s .next = q := by
  cases par with
  | nursery | scope => simp [finishes, hst]
  | starter a => exact absurd rfl (hpar a)

/-- What becomes of the ledger then. -/
theorem ledger_of_continuation {par : Parent} {p : ℕ} {below : List Frame}
    (hst : s.stack = .continuation par (some p) :: below) (hpar : ∀ a, par ≠ .starter a)
    (h : step s .next = .ok t) : t.ledger =
      ({ s.ledger with calls := below.filter Frame.own }.eraseTask p).closeIfFinished := by
  have hentry := entry_of_step h
  generalize t.ledger = g at hentry
  cases hentry with
  | continuation hst' =>
    rw [hst] at hst'
    cases hst'
    rfl
  | startContinuation hst' =>
    rw [hst] at hst'
    cases hst'
    exact absurd rfl (hpar _)
  | closed hst' | continuationBody hst' | continuationLast hst' | adoptedStarter hst'
  | adopted hst' | runSoonReturns hst' | submitResume hst' =>
    rw [hst] at hst'
    cases hst'

theorem counted_off_of_finishes {a : Action Err} {p : ℕ} (hfin : finishes s a = some p)
    (h : step s a = .ok t) : t.tasks = s.tasks.erase p ∧ t.taskCount = s.taskCount - 1 := by
  obtain ⟨par, below, rfl, hst, hpar⟩ := stack_of_finishes hfin
  have hclose : ∀ g : Ledger Err,
      g.closeIfFinished.tasks = g.tasks ∧ g.closeIfFinished.taskCount = g.taskCount := by
    intro g
    unfold Ledger.closeIfFinished
    split_ifs <;> exact ⟨rfl, rfl⟩
  have hg := ledger_of_continuation hst hpar h
  exact ⟨(congrArg Ledger.tasks hg).trans (hclose _).1,
    (congrArg Ledger.taskCount hg).trans (hclose _).2⟩

/-- A task that is counted off is linked. -/
theorem mem_tasks_of_finishes (hb : Books s) {p : ℕ} {par : Parent} {below : List Frame}
    (hok : AdoptedFirst s .next) (hst : s.stack = .continuation par (some p) :: below)
    (hpar : ∀ a, par ≠ .starter a) : p ∈ s.tasks := by
  have hin := hb.reports.linked par p (calls_cons hst rfl ▸ List.mem_cons_self) hpar
  have had : s.ledger.adoptions.count p = 0 :=
    List.count_eq_zero.2 (hok p (finishes_continuation hst hpar))
  rw [Ledger.inNursery, had] at hin
  exact List.count_pos_iff.1 hin

/-- The step lemma where no task is counted off. -/
theorem Linkage.entry {a : Action Err} (hi : Linkage off s.ledger) (hb : Books s)
    (hidle : a ≠ .next → ∀ f ∈ s.ledger.calls, f.called = none) (hfin : finishes s a = none)
    (h : Entry s a g) : Linkage off g := by
  have hheld := fun q hq => held_le_of_entry hb.custody hb.census h (q := q) hq
  have hlt : ∀ p, 0 < s.ledger.inNursery p → p < s.nextId :=
    fun p hp => hb.custody.lt_of_held (Nat.add_pos_left hp _)
  cases h with
  | openScope | joinEmpty | join | asyncCloseEmpty | closed | startEarlyCancel | startCancel
  | startedCancelling | dropStartHanded | storeInStarter =>
    exact hi.of_same rfl rfl le_rfl hheld rfl rfl fun _ h => h
  | newStart => exact hi.of_same rfl rfl (Nat.le_succ _) hheld rfl rfl fun _ h => h
  | bodyPromise | start => exact hi.addPromise hlt _ (by simp)
  | bodyDone => exact (hi.push rfl).stores (Ledger.stores_storeInScope _ _)
  | joinClosed | closeEmpty | startCancelHanded | await | resume | cancelRefused
  | ignoreInStarter | run | runSoonReturns => exact hi
  | asyncClose =>
    have hset : Linkage off { s.ledger with parent := true, joined := true } :=
      hi.of_same rfl rfl le_rfl (fun _ _ => le_rfl) rfl rfl fun _ h => h
    exact hset.stores (Ledger.stores_cancel _)
  | close =>
    refine hi.of_same rfl rfl le_rfl hheld rfl rfl fun p hp => ?_
    simpa [Ledger.submit] using hp
  | cancel => exact hi.stores (Ledger.stores_cancel _)
  | startDone => exact hi.stores (Ledger.stores_storeInNursery _ _)
  | startPending ha hp => exact hi.startPending hlt ha hp rfl
  | handOff ha hp => exact hi.handOff ha hp rfl
  | dropStart ha hh hn hp =>
    rename_i b p st
    have hset : Linkage off { s.ledger with starters := s.starters.erase b } :=
      hi.of_same rfl rfl le_rfl (fun q _ => Ledger.held_eraseStarter_le ha q) rfl rfl fun _ h => h
    have hpos := Ledger.pledged_pos (g := s.ledger) ha hp
    have hone := hb.custody.once p
    refine hset.destroy ?_
    simp only [Ledger.held] at hone
    exact (by omega : s.ledger.inNursery p = 0)
  | awaitCancelled hp | resumeCancelled hp | cancelConfirmed hp =>
    refine (hi.cancelled _).finish ((congrFun (Ledger.parents_cancelled _ _) _).trans hp) ?_
    rw [Ledger.calls_cancelled]
    exact hidle (by simp)
  | storeInNursery => exact hi.stores (Ledger.stores_storeInNursery _ _)
  | storeInScope => exact hi.stores (Ledger.stores_storeInScope _ _)
  | finalSuspend hp => exact hi.finish hp (hidle (by simp))
  | cancelTask | resumeParent => exact hi.unqueue _
  | destroyTask hmem =>
    rename_i p
    have hoff := hi.destroyed p (List.mem_filter.2 ⟨hmem, rfl⟩)
    have hzero := (hi.gone p hoff).2.1
    exact (hi.unqueue _).destroy (Nat.eq_zero_of_add_eq_zero_right hzero)
  | cancelNursery => exact (hi.unqueue _).stores (Ledger.stores_cancel _)
  | startContinuation hst ha =>
    have hpop := hi.pop (calls_cons hst rfl) rfl fun par p hne heq => by
      cases heq
      exact hne _ rfl
    rename_i b q below st
    have hset : Linkage off { s.ledger with
        calls := below.filter Frame.own
        pendingTaskCount := if st.nursery then s.pendingTaskCount - 1 else s.pendingTaskCount } :=
      hpop.of_same rfl rfl le_rfl (fun _ _ => le_rfl) rfl rfl fun _ h => h
    exact hset.setStarter ha rfl
  | continuation hst hpar =>
    rw [finishes_continuation hst hpar] at hfin
    cases hfin
  | continuationBody hst => exact hi.pop (calls_cons hst rfl) rfl (by simp)
  | continuationLast hst | submitResume hst =>
    have hpop := hi.pop (calls_cons hst rfl) rfl (by simp)
    refine hpop.of_same rfl rfl le_rfl (fun _ _ => le_rfl) rfl rfl fun p hp => ?_
    simpa [Ledger.submit] using hp
  | adoptedStarter hst ha =>
    rename_i p b below st
    have hcalls := calls_cons hst rfl
    obtain ⟨par, hns, hpar⟩ := hi.adopting p b (hcalls ▸ List.mem_cons_self)
    have hpar' : s.ledger.parents p = some (some par) := hpar.resolve_right fun hmem => by
      rw [hcalls] at hmem
      rcases List.mem_cons.1 hmem with heq | hmem
      · cases heq
      · have := hb.prompt.called_below hst hmem
        cases this
    have had := hi.adopted hb.custody hcalls hns
    rw [Ledger.setParent, ← hpar', Function.update_eq_self] at had
    exact had.setStarter ha rfl
  | adopted hst hpar => exact hi.adopted hb.custody (calls_cons hst rfl) hpar

/-- The step lemma. -/
theorem Linkage.step {a : Action Err} (hi : Linkage off s.ledger) (hb : Books s)
    (hok : AdoptedFirst s a) (h : Nursery.step s a = .ok t) :
    Linkage (off ++ (finishes s a).toList) t.ledger := by
  have hentry := entry_of_step h
  cases hfin : finishes s a with
  | none =>
    rw [Option.toList_none, List.append_nil]
    exact hi.entry hb (fun ha f hf => hb.prompt.called_eq_none h ha hf) hfin hentry
  | some p =>
    obtain ⟨par, below, rfl, hst, hpar⟩ := stack_of_finishes hfin
    have hcalls := calls_cons hst rfl
    have hoff := hi.countOff hb.custody hcalls (hb.reports.done par p (hcalls ▸ List.mem_cons_self))
      (mem_tasks_of_finishes hb hok hst hpar)
    rw [ledger_of_continuation hst hpar h]
    exact hoff.closeIfFinished

/-- The run lemma. -/
theorem linkage_of_run {kind : Kind} {l : List (State Err × Action Err)}
    (hr : Run step AdoptedFirst (.init kind) l s) : Linkage (events finishes l) s.ledger := by
  refine hr.invariant_of (I := fun l s => Linkage (events finishes l) s.ledger)
    (J := fun _ s => Books s) (fun _ _ hr => books_of_reach hr.reach) ?_ ?_
  · exact ⟨rfl, List.nodup_nil, by simp, by simp [State.ledger, State.init],
      by simp [State.ledger, State.init], by simp [State.ledger, State.init]⟩
  · intro l s a t hb hi hok h
    rw [events_concat]
    exact hi.step hb hok h

/-! ### The result -/

/-- A promise that is linked is there, and has not reported, or is about to. -/
theorem unfinished_promise (hb : Books s) {p : ℕ} (h : s.ledger.Unfinished p) :
    ∃ pr, s.promises.lookup p = some pr ∧
      (pr.parent.isSome = true ∨ ∃ par below, s.stack = .continuation par (some p) :: below) := by
  have hlook : ∀ x, s.ledger.parents p = some x →
      ∃ pr, s.promises.lookup p = some pr ∧ pr.parent = x := by
    intro x hx
    simpa [State.ledger] using hx
  obtain ⟨par, -, hpar | hmem⟩ := h
  · obtain ⟨pr, hpr, hsome⟩ := hlook _ hpar
    exact ⟨pr, hpr, Or.inl (by rw [hsome]; rfl)⟩
  · obtain ⟨pr, hpr, -⟩ := hlook _ (hb.reports.done par p hmem)
    refine ⟨pr, hpr, Or.inr ?_⟩
    -- the call is in progress, so it is the one on top
    have hstack := (List.mem_filter.1 hmem).1
    cases hst : s.stack with
    | nil => rw [hst] at hstack; cases hstack
    | cons top below =>
      rw [hst] at hstack
      rcases List.mem_cons.1 hstack with rfl | htail
      · exact ⟨par, below, rfl⟩
      · have := (hb.prompt _ (by rw [hst]; exact htail)).1
        cases this

/-- In every run in which no task is counted off while it is still being adopted, `taskCount_` is
the number of promises that are linked, none of which is linked twice or has been counted off, and
no task is counted off twice.  Every task that is counted off was linked and is taken off the list.
A step that counts off a task that is still being adopted leaves a counter that is wrong. -/
theorem counted_off_once {kind : Kind} {l : List (State Err × Action Err)}
    (hr : Run step AdoptedFirst (.init kind) l s) :
    (s.taskCount = UInt32.ofNat s.tasks.length ∧ s.tasks.Nodup ∧
      (∀ p ∈ s.tasks, p ∉ events finishes l ∧ ∃ pr, s.promises.lookup p = some pr ∧
        (pr.parent.isSome = true ∨ ∃ par below, s.stack = .continuation par (some p) :: below)) ∧
      (events finishes l).Nodup) ∧
    (∀ a t p, AdoptedFirst s a → step s a = .ok t → finishes s a = some p →
      p ∈ s.tasks ∧ t.tasks = s.tasks.erase p ∧ t.taskCount = s.taskCount - 1) ∧
    ∀ a t, ¬ AdoptedFirst s a → step s a = .ok t →
      t.taskCount ≠ UInt32.ofNat t.tasks.length := by
  have hb := books_of_reach hr.reach
  have hi := linkage_of_run hr
  have hcount : ∀ p, s.tasks.count p ≤ 1 := fun p =>
    ((Nat.le_add_right _ _).trans (Nat.le_add_right _ _)).trans (hb.custody.once p)
  refine ⟨⟨hi.counted, List.nodup_iff_count_le_one.2 hcount, fun p hp => ⟨fun hoff => ?_, ?_⟩,
    hi.once⟩, fun a t p hok h hfin => ?_, fun a t hok h => ?_⟩
  · have hzero := (hi.gone p hoff).2.1
    have hpos : 0 < s.ledger.tasks.count p := List.count_pos_iff.2 hp
    simp only [Ledger.held, Ledger.inNursery] at hzero
    omega
  · exact unfinished_promise hb (hi.unfinished p hp)
  · obtain ⟨par, below, rfl, hst, hpar⟩ := stack_of_finishes hfin
    exact ⟨mem_tasks_of_finishes hb hok hst hpar, counted_off_of_finishes hfin h⟩
  · simp only [AdoptedFirst, not_forall, not_not] at hok
    obtain ⟨p, hfin, had⟩ := hok
    obtain ⟨htasks, hcounter⟩ := counted_off_of_finishes hfin h
    have hnot : p ∉ s.tasks := fun hmem => by
      have hone := hb.custody.once p
      have hpos : 0 < s.ledger.tasks.count p := List.count_pos_iff.2 hmem
      have hpos' := List.count_pos_iff.2 had
      simp only [Ledger.held, Ledger.inNursery] at hone
      omega
    have hcounted : s.taskCount = UInt32.ofNat s.tasks.length := hi.counted
    rw [htasks, hcounter, List.erase_of_not_mem hnot, ← hcounted]
    intro heq
    have hback := UInt32.sub_add_cancel s.taskCount 1
    rw [heq, UInt32.add_eq_left] at hback
    exact absurd hback (by decide)

/-- A task is started in an `UnsafeNursery`, and cancelled with it. -/
def cancelledTask : List (Action ℕ) :=
  [.start .promise, .next, .callback (.run 0), .await 0 ⟨false, false, false⟩, .cancel,
    .callback (.cancel 0), .cancelReturns true, .next]

theorem counted_off_once_cancelledTask :
    ∃ s, exec step (.init .unsafeNursery : State ℕ) cancelledTask = .ok s ∧
      events finishes (history step (.init .unsafeNursery) cancelledTask) = [0] ∧
      s.taskCount = UInt32.ofNat s.tasks.length := by
  have hm : Meets step AdoptedFirst (.init .unsafeNursery : State ℕ) cancelledTask := by decide
  have hrun : ∃ s, exec step (.init .unsafeNursery : State ℕ) cancelledTask = .ok s ∧
      events finishes (history step (.init .unsafeNursery) cancelledTask) = [0] :=
    ⟨_, rfl, by decide⟩
  obtain ⟨s, he, hev⟩ := hrun
  exact ⟨s, he, hev, (counted_off_once (run_of_exec hm he)).1.1⟩

/-- A task outside a scoped nursery awaits `start()`.  The nursery is cancelled, `started()` is
called while the started task is suspended, and the task confirms its cancellation within
`adopt()`. -/
def doneInAdopt : List (Action ℕ) :=
  [.openScope, .bodyReturns .promise, .next, .callback (.run 0), .await 0 ⟨false, false, false⟩,
    .newStart, .startSuspend 1 none, .callback (.run 2), .await 2 ⟨false, false, false⟩,
    .cancel, .callback (.cancel 0), .cancelReturns false, .next, .started 1, .cancelReturns true,
    .next, .next, .next]

/-- So a task can be counted off before it is linked, and be linked when it is done. -/
theorem not_counted_off_once :
    ¬ ∀ (kind : Kind) (l : List (State ℕ × Action ℕ)) (s : State ℕ),
      Run step anyAction (.init kind) l s → s.taskCount = UInt32.ofNat s.tasks.length ∧
        ∀ p ∈ s.tasks, p ∉ events finishes l := by
  intro h
  have hm : Meets step anyAction (.init .scope : State ℕ) doneInAdopt :=
    meets_of_forall (fun _ _ _ => trivial) _
  have hrun : ∃ s, exec step (.init .scope : State ℕ) doneInAdopt = .ok s ∧
      s.taskCount ≠ UInt32.ofNat s.tasks.length := ⟨_, rfl, by decide⟩
  obtain ⟨s, he, hne⟩ := hrun
  exact hne (h .scope _ s (run_of_exec hm he)).1

end Corral.Nursery
