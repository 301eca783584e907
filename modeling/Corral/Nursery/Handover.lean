import Corral.Nursery.Custody

/-!
# The hand-over of a task that is being started

A start awaiter keeps the promise of its task until `TaskStarted` is invoked, and then hands it over
to the nursery, which adopts it.

* `Change`: what a step can do to a start awaiter, with `change_of_entry`;
* `makes` and `adopts`: the promise that a start awaiter has made, and the one that is linked at the
  end of `adopt()`;
* `Handover`: every promise that was made is pledged to its start awaiter, or has been passed to the
  nursery, or is gone together with the start awaiter, in every run.
-/

namespace Corral.Nursery

open ActionMachine Registry

variable {Err : Type*} {s t : State Err} {g : Ledger Err}

/-! ### What a step does to a start awaiter -/

/-- The start awaiter `b` changes from `st` to `st'`. -/
inductive Change (s : State Err) : Action Err → ℕ → Starter Err → Starter Err → Prop
  | earlyCancel {b : ℕ} {st : Starter Err} : st.promise = none → st.nursery = true →
      Change s (.startEarlyCancel b) b st { st with cancelling := true }
  | startPending {b : ℕ} {st : Starter Err} : st.promise = none → st.nursery = true →
      Change s (.startSuspend b none) b st { st with
        promise := some s.nextId, handle := true }
  | cancel {b p : ℕ} {st : Starter Err} : st.promise = some p → st.handle = true →
      st.cancelling = false → Change s (.startCancel b) b st { st with cancelling := true }
  | startedCancelling {b p : ℕ} {st : Starter Err} : st.promise = some p → st.cancelling = true →
      Change s (.started b) b st { st with result := .value, sink := false }
  | handOff {b p : ℕ} {st : Starter Err} : st.promise = some p → st.cancelling = false →
      st.nursery = true → Change s (.started b) b st { st with
        result := .value, sink := false, nursery := false, promise := none }
  | cancelled {a : Action Err} {b p : ℕ} {st : Starter Err} :
      s.ledger.parents p = some (some (.starter b)) → a ≠ .next → (∀ q, a ≠ .finalSuspend q) →
      Change s a b st { st with result := .cancelled }
  | thrown {b p : ℕ} {st : Starter Err} {err : Err} :
      s.ledger.parents p = some (some (.starter b)) →
      Change s (.storeResult p (.error err)) b st { st with result := .error err }
  | continued {b : ℕ} {q : Option ℕ} {below : List Frame} {st : Starter Err} :
      s.stack = .continuation (.starter b) q :: below →
      Change s .next b st { st with nursery := false, handle := false }
  | adopted {b p : ℕ} {below : List Frame} {st : Starter Err} :
      s.stack = .adopt p (.starter b) :: below → Change s .next b st { st with handle := false }

/-- A start awaiter that is there after a step was there before, or is new. -/
def Follows (s : State Err) (a : Action Err) (b : ℕ) (st' : Starter Err) : Prop :=
  s.starters.lookup b = some st' ∨
  (b = s.nextId ∧ st' = ⟨true, none, false, false, .incomplete, true⟩) ∨
  ∃ st, s.starters.lookup b = some st ∧ Change s a b st st'

theorem follows_insert {a : Action Err} {b c : ℕ} {st st' st'' : Starter Err}
    (hc : s.starters.lookup c = some st) (hch : Change s a c st st')
    (h : (s.starters.insert c st').lookup b = some st'') : Follows s a b st'' := by
  rw [lookup_insert_eq] at h
  split_ifs at h with hbc
  · cases h
    exact Or.inr (Or.inr ⟨st, hbc ▸ hc, hbc ▸ hch⟩)
  · exact Or.inl h

theorem follows_cancelled {a : Action Err} {b p : ℕ} {par : Parent} {st' : Starter Err}
    (hp : s.ledger.parents p = some (some par)) (ha : a ≠ .next) (hf : ∀ q, a ≠ .finalSuspend q)
    (h : (s.ledger.cancelled par).starters.lookup b = some st') : Follows s a b st' := by
  cases par with
  | starter c =>
    simp only [Ledger.cancelled] at h
    split at h
    · rename_i st hc
      exact follows_insert hc (.cancelled hp ha hf) h
    · exact Or.inl h
  | nursery | scope => exact Or.inl h

theorem starters_stores {g₁ g₂ : Ledger Err} (h : g₁.Stores g₂) : g₂.starters = g₁.starters := by
  obtain ⟨e, c, ps, -, -, rfl⟩ := h
  rfl

theorem starters_closeIfFinished (g : Ledger Err) : g.closeIfFinished.starters = g.starters := by
  unfold Ledger.closeIfFinished
  split_ifs <;> rfl

/-- The inversion lemma for the start awaiters. -/
theorem change_of_entry {a : Action Err} {b : ℕ} {st' : Starter Err} (h : Entry s a g)
    (hb : g.starters.lookup b = some st') : Follows s a b st' := by
  cases h with
  | bodyDone | storeInScope =>
    rw [starters_stores (Ledger.stores_storeInScope _ _)] at hb
    exact Or.inl hb
  | asyncClose | cancel | cancelNursery =>
    rw [starters_stores (Ledger.stores_cancel _)] at hb
    exact Or.inl hb
  | startDone | storeInNursery =>
    rw [starters_stores (Ledger.stores_storeInNursery _ _)] at hb
    exact Or.inl hb
  | newStart =>
    simp only [Ledger.setStarter, lookup_insert_eq] at hb
    split_ifs at hb with hnew
    · cases hb
      exact Or.inr (Or.inl ⟨hnew, rfl⟩)
    · exact Or.inl hb
  | startEarlyCancel hc hp hn => exact follows_insert hc (.earlyCancel hp hn) hb
  | startPending hc hp hn => exact follows_insert hc (.startPending hp hn) hb
  | startCancel hc hp hh hcan => exact follows_insert hc (.cancel hp hh hcan) hb
  | startedCancelling hc hp hcan => exact follows_insert hc (.startedCancelling hp hcan) hb
  | handOff hc hp hcan hn => exact follows_insert hc (.handOff hp hcan hn) hb
  | dropStart | dropStartHanded => exact Or.inl (lookup_of_lookup_erase hb)
  | awaitCancelled hp | resumeCancelled hp | cancelConfirmed hp =>
    exact follows_cancelled hp (by simp) (by simp) hb
  | storeInStarter hp hc => exact follows_insert hc (.thrown hp) hb
  | startContinuation hst hc => exact follows_insert hc (.continued hst) hb
  | continuation =>
    rw [starters_closeIfFinished] at hb
    exact Or.inl hb
  | adoptedStarter hst hc => exact follows_insert hc (.adopted hst) hb
  | _ => exact Or.inl hb

theorem exists_insert {b c : ℕ} {st : Starter Err} (hb : s.starters.lookup b = some st)
    (st' : Starter Err) : ∃ st'', (s.starters.insert c st').lookup b = some st'' := by
  rw [lookup_insert_eq]
  split_ifs
  · exact ⟨st', rfl⟩
  · exact ⟨st, hb⟩

theorem exists_cancelled {b : ℕ} {st : Starter Err} (hb : s.starters.lookup b = some st)
    (par : Parent) : ∃ st', (s.ledger.cancelled par).starters.lookup b = some st' := by
  cases par with
  | starter c =>
    simp only [Ledger.cancelled]
    split
    · exact exists_insert hb _
    · exact ⟨st, hb⟩
  | nursery | scope => exact ⟨st, hb⟩

/-- A start awaiter stays until it is dropped. -/
theorem kept_or_dropped {a : Action Err} {b : ℕ} {st : Starter Err} (h : Entry s a g)
    (hb : s.starters.lookup b = some st) :
    (∃ st', g.starters.lookup b = some st') ∨
    a = .dropStart b ∧ st.handle = false ∧ st.nursery = false ∧ g.starters = s.starters.erase b := by
  have herase : ∀ {c : ℕ} {st' : Starter Err}, s.starters.lookup c = some st' →
      st'.handle = false → st'.nursery = false → g.starters = s.starters.erase c →
      (∃ st', g.starters.lookup b = some st') ∨ Action.dropStart c = (.dropStart b : Action Err) ∧
        st.handle = false ∧ st.nursery = false ∧ g.starters = s.starters.erase b := by
    intro c st' hc hh hn hg
    by_cases hbc : b = c
    · subst hbc
      rw [hb] at hc
      cases hc
      exact Or.inr ⟨rfl, hh, hn, hg⟩
    · refine Or.inl ⟨st, ?_⟩
      rw [hg, lookup_erase_eq, if_neg hbc, hb]
  cases h with
  | bodyDone | storeInScope =>
    rw [starters_stores (Ledger.stores_storeInScope _ _)]
    exact Or.inl ⟨st, hb⟩
  | asyncClose | cancel | cancelNursery =>
    rw [starters_stores (Ledger.stores_cancel _)]
    exact Or.inl ⟨st, hb⟩
  | startDone | storeInNursery =>
    rw [starters_stores (Ledger.stores_storeInNursery _ _)]
    exact Or.inl ⟨st, hb⟩
  | newStart | startEarlyCancel | startPending | startCancel | startedCancelling
  | handOff | storeInStarter | startContinuation | adoptedStarter =>
    exact Or.inl (exists_insert hb _)
  | dropStart hc hh hn => exact herase hc hh hn rfl
  | dropStartHanded hc hh hn => exact herase hc hh hn rfl
  | awaitCancelled | resumeCancelled | cancelConfirmed => exact Or.inl (exists_cancelled hb _)
  | continuation =>
    rw [starters_closeIfFinished]
    exact Or.inl ⟨st, hb⟩
  | _ => exact Or.inl ⟨st, hb⟩

/-! ### Adoptions -/

/-- A start awaiter makes the promise of its task. -/
def makes (s : State Err) : Action Err → Option (ℕ × ℕ)
  | .startSuspend b none => some (b, s.nextId)
  | _ => none

/-- A promise is linked, at the end of `adopt()`. -/
def adopts (s : State Err) : Action Err → Option ℕ
  | .next => match s.stack with
    | .adopt p _ :: _ => some p
    | _ => none
  | _ => none

theorem adopts_of_top {top : Frame} {below : List Frame} (hst : s.stack = top :: below) :
    adopts s .next = top.adopting := by
  simp only [adopts, hst]
  cases top <;> rfl

theorem adopts_eq_none {a : Action Err} (ha : a ≠ .next) : adopts s a = none := by
  cases a with
  | next => exact absurd rfl ha
  | _ => rfl

theorem adoptions_stores {g₁ g₂ : Ledger Err} (h : g₁.Stores g₂) : g₂.adoptions = g₁.adoptions := by
  obtain ⟨e, c, ps, -, -, rfl⟩ := h
  rfl

theorem adoptions_closeIfFinished (g : Ledger Err) : g.closeIfFinished.adoptions = g.adoptions := by
  unfold Ledger.closeIfFinished
  split_ifs <;> rfl

theorem adoptions_finish (g : Ledger Err) (p : ℕ) (par : Parent) :
    (g.finish p par).adoptions = g.adoptions := rfl

theorem adoptions_cancelled (g : Ledger Err) (par : Parent) :
    (g.cancelled par).adoptions = g.adoptions := by
  rw [Ledger.adoptions, Ledger.calls_cancelled]
  rfl

/-- The promise that an action begins to adopt. -/
def begins (s : State Err) : Action Err → Option ℕ
  | .bodyReturns .promise => some s.nextId
  | .start .promise => some s.nextId
  | .started b => match s.starters.lookup b with
    | some st => if st.cancelling then none else st.promise
    | none => none
  | _ => none

/-- Every adoption that has begun is in progress until the promise is linked. -/
theorem adoptions_of_entry {a : Action Err} (h : Entry s a g) :
    (adopts s a).toList ++ g.adoptions = (begins s a).toList ++ s.ledger.adoptions := by
  have hpop : ∀ {top : Frame} {below : List Frame} {g : Ledger Err}, s.stack = top :: below →
      g.calls = below.filter Frame.own →
      (adopts s .next).toList ++ g.adoptions = s.ledger.adoptions := by
    intro top below g hst hg
    rw [adopts_of_top hst, Ledger.adoptions, Ledger.adoptions, hg]
    simp only [State.ledger, hst]
    cases top with
    | runSoon ret => cases ret <;> rfl
    | _ => rfl
  cases h with
  | bodyDone | storeInScope =>
    rw [adoptions_stores (Ledger.stores_storeInScope _ _)]
    rfl
  | asyncClose | cancel | cancelNursery =>
    rw [adoptions_stores (Ledger.stores_cancel _)]
    rfl
  | startDone | storeInNursery =>
    rw [adoptions_stores (Ledger.stores_storeInNursery _ _)]
    rfl
  | awaitCancelled | resumeCancelled | cancelConfirmed =>
    rw [adoptions_finish, adoptions_cancelled]
    rfl
  | startedCancelling hb hp hc => simp [begins, adopts, hb, hc]; rfl
  | handOff hb hp hc => simp [begins, adopts, hb, hc, hp]; rfl
  | closed hst => exact hpop hst (by simp [State.ledger, hst, Frame.own])
  | runSoonReturns hst => exact hpop hst (by simp [State.ledger, hst, Frame.own])
  | continuation hst =>
    rw [adoptions_closeIfFinished]
    exact hpop hst rfl
  | startContinuation hst | continuationBody hst | continuationLast hst | adoptedStarter hst
  | adopted hst | submitResume hst => exact hpop hst rfl
  | _ => rfl

theorem nextId_stores {g₁ g₂ : Ledger Err} (h : g₁.Stores g₂) : g₂.nextId = g₁.nextId := by
  obtain ⟨e, c, ps, -, -, rfl⟩ := h
  rfl

/-- Identities are given out in order. -/
theorem nextId_le_of_entry {a : Action Err} (h : Entry s a g) : s.nextId ≤ g.nextId := by
  cases h with
  | bodyDone | storeInScope =>
    rw [nextId_stores (Ledger.stores_storeInScope _ _)]
    exact le_rfl
  | asyncClose | cancel | cancelNursery =>
    rw [nextId_stores (Ledger.stores_cancel _)]
    exact le_rfl
  | startDone | storeInNursery =>
    rw [nextId_stores (Ledger.stores_storeInNursery _ _)]
    exact le_rfl
  | bodyPromise | start | newStart | startPending => exact Nat.le_succ _
  | awaitCancelled | resumeCancelled | cancelConfirmed =>
    obtain ⟨sts, hsts⟩ := s.ledger.exists_cancelled _
    rw [hsts]
    exact le_rfl
  | continuation =>
    unfold Ledger.closeIfFinished
    split_ifs <;> exact le_rfl
  | _ => exact le_rfl

/-! ### Who has the task -/

/-- No start awaiter has the promise. -/
def Ledger.Free (g : Ledger Err) (p : ℕ) : Prop :=
  ∀ c st, g.starters.lookup c = some st → st.promise ≠ some p

/-- The start awaiter has no task any more, and the value that was given to `TaskStarted`. -/
def Ledger.Handed (g : Ledger Err) (b : ℕ) : Prop :=
  ∀ st, g.starters.lookup b = some st →
    st.promise = none ∧ st.nursery = false ∧ st.result = .value ∧ st.sink = false

/-- What has become of the promise `p` that the start awaiter `b` has made, where `linked` are the
promises that have been linked. -/
inductive Whereabouts (linked : List ℕ) (g : Ledger Err) (b p : ℕ) : Prop
  | pledged {st : Starter Err} : g.starters.lookup b = some st → st.promise = some p →
      p ∉ linked → Whereabouts linked g b p
  | passed : g.Free p → g.Handed b → linked.count p + g.adoptions.count p = 1 →
      Whereabouts linked g b p
  | gone : g.held p = 0 → g.starters.lookup b = none → p ∉ linked → Whereabouts linked g b p

/-- The promises that start awaiters have made, and those that have been linked. -/
structure Handover (made : List (ℕ × ℕ)) (linked : List ℕ) (g : Ledger Err) : Prop where
  made : ∀ b p, (b, p) ∈ made → b < g.nextId ∧ p < g.nextId ∧ Whereabouts linked g b p
  linked : ∀ p ∈ linked, p < g.nextId
  unmade : ∀ b st, g.starters.lookup b = some st → st.promise = none → st.nursery = true →
    st.result ≠ .value ∧ st.sink = true ∧ st.handle = false
  /-- `handOff()` does nothing in a start awaiter that is cancelled -/
  waiting : ∀ b st p, g.starters.lookup b = some st → st.promise = some p →
    st.result = .value ∨ st.sink = false → st.cancelling = true

/-- A promise stays without a start awaiter. -/
theorem free_of_entry {a : Action Err} {p : ℕ} (h : Entry s a g) (hp : p < s.nextId)
    (hf : s.ledger.Free p) : g.Free p := by
  intro c st' hc hst'
  rcases change_of_entry h hc with hc | ⟨-, rfl⟩ | ⟨st, hc, hch⟩
  · exact hf c st' hc hst'
  · cases hst'
  · have hold : st.promise ≠ some p := hf c st hc
    cases hch with
    | startPending =>
      have heq : s.nextId = p := by simpa using hst'
      omega
    | handOff => cases hst'
    | _ => exact hold hst'

/-- A start awaiter stays without a task. -/
theorem handed_of_entry {a : Action Err} {b : ℕ} (hc : Custody s.ledger) (h : Entry s a g)
    (hb : b < s.nextId) (hd : s.ledger.Handed b) : g.Handed b := by
  intro st' hb'
  rcases change_of_entry h hb' with hl | ⟨rfl, -⟩ | ⟨st, hl, hch⟩
  · exact hd st' hl
  · exact absurd hb (lt_irrefl _)
  · obtain ⟨hpr, hn, hres, hsink⟩ := hd st hl
    cases hch with
    | earlyCancel _ ht | startPending _ ht =>
      rw [hn] at ht
      cases ht
    | cancel hsome | startedCancelling hsome | handOff hsome =>
      rw [hpr] at hsome
      cases hsome
    | cancelled hpar | thrown hpar => exact absurd hpar (hc.ne_starter_of_promise hl hpr _)
    | continued => exact ⟨hpr, rfl, hres, hsink⟩
    | adopted => exact ⟨hpr, hn, hres, hsink⟩

/-- A start awaiter that is gone does not come back. -/
theorem lookup_eq_none_of_entry {a : Action Err} {b : ℕ} (h : Entry s a g) (hb : b < s.nextId)
    (hnone : s.starters.lookup b = none) : g.starters.lookup b = none := by
  cases hb' : g.starters.lookup b with
  | none => rfl
  | some st' =>
    rcases change_of_entry h hb' with hc | ⟨rfl, -⟩ | ⟨st, hc, -⟩
    · rw [hnone] at hc
      cases hc
    · exact absurd hb (lt_irrefl _)
    · rw [hnone] at hc
      cases hc

/-- `TaskStarted` is invoked where the start awaiter has the promise. -/
theorem free_of_begins {a : Action Err} {p : ℕ} (h : begins s a = some p) (hp : p < s.nextId) :
    ¬ s.ledger.Free p := by
  intro hf
  unfold begins at h
  split at h
  · cases h
    exact lt_irrefl _ hp
  · cases h
    exact lt_irrefl _ hp
  · split at h
    · rename_i b _ st hb
      split_ifs at h
      exact hf b st hb h
    · cases h
  · cases h

/-- A promise that is not being adopted is not linked. -/
theorem adopts_ne_of_adoptions {a : Action Err} {p : ℕ} (h : Entry s a g)
    (hb : begins s a ≠ some p) (hp : p ∉ s.ledger.adoptions) :
    p ∉ (adopts s a).toList ∧ p ∉ g.adoptions := by
  have heq := adoptions_of_entry h
  have hnot : p ∉ (adopts s a).toList ++ g.adoptions := by
    rw [heq]
    simp only [List.mem_append, Option.mem_toList, not_or]
    exact ⟨hb, hp⟩
  simpa [not_or] using hnot

/-- A promise that a start awaiter has is not in the nursery. -/
theorem inNursery_of_pledged (hc : Custody g) {b p : ℕ} {st : Starter Err}
    (hb : g.starters.lookup b = some st) (hp : st.promise = some p) : g.inNursery p = 0 := by
  have hone := hc.once p
  have hpos := Ledger.pledged_pos hb hp
  rw [Ledger.held] at hone
  omega

theorem adoptions_of_inNursery {p : ℕ} (h : g.inNursery p = 0) : p ∉ g.adoptions := by
  rw [Ledger.inNursery] at h
  exact List.count_eq_zero.1 (by omega)

theorem free_of_held {p : ℕ} (h : g.held p = 0) : g.Free p := by
  intro c st hc hp
  have := Ledger.pledged_pos hc hp
  rw [Ledger.held] at h
  omega

/-- The start awaiter that begins to hand a promise over. -/
theorem started_of_begins {a : Action Err} {p : ℕ} (h : begins s a = some p) (hp : p < s.nextId) :
    ∃ b st, a = .started b ∧ s.starters.lookup b = some st ∧ st.promise = some p ∧
      st.cancelling = false := by
  unfold begins at h
  split at h
  · cases h
    exact absurd hp (lt_irrefl _)
  · cases h
    exact absurd hp (lt_irrefl _)
  · split at h
    · rename_i b _ st hb
      split_ifs at h with hc
      exact ⟨b, st, rfl, hb, h, by simpa using hc⟩
    · cases h
  · cases h

/-- The start awaiter hands its promise over to the nursery. -/
theorem Whereabouts.handOff {linked : List ℕ} {a : Action Err} {b p : ℕ} {st : Starter Err}
    (hc : Custody s.ledger) (h : Entry s a g) (hp : p < s.nextId)
    (hb : s.starters.lookup b = some st) (hst : st.promise = some p) (hnot : p ∉ linked)
    (hbeg : begins s a = some p) : Whereabouts (linked ++ (adopts s a).toList) g b p := by
  have hin := inNursery_of_pledged hc hb hst
  have hadopt : (adopts s a).toList ++ g.adoptions = p :: s.ledger.adoptions := by
    rw [adoptions_of_entry h, hbeg]
    rfl
  have hone : s.ledger.pledged p ≤ 1 := by
    have := hc.once p
    rw [Ledger.held] at this
    omega
  obtain ⟨c, st', rfl, hc', hst', hcan⟩ := started_of_begins hbeg hp
  obtain rfl : c = b := Ledger.pledged_unique hone hc' hst' hb hst
  cases h with
  | startedCancelling hl _ ht =>
    rw [hl] at hc'
    cases hc'
    rw [ht] at hcan
    cases hcan
  | handOff hl hpr =>
    rw [hb] at hl
    cases hl
    refine .passed (fun d st₁ hd hp₁ => ?_) (fun st₁ h₁ => ?_) ?_
    · -- The promise has been taken from this start awaiter, and no other one has it.
      simp only [Ledger.push, Ledger.setParent, Ledger.setStarter, lookup_insert_eq] at hd
      split_ifs at hd with hdb
      · cases hd
        cases hp₁
      · exact hdb (Ledger.pledged_unique hone hd hp₁ hb hst)
    · simp only [Ledger.push, Ledger.setParent, Ledger.setStarter, lookup_insert_eq, if_true] at h₁
      cases h₁
      exact ⟨rfl, rfl, rfl, rfl⟩
    · have hzero : s.ledger.adoptions.count p = 0 :=
        List.count_eq_zero.2 (adoptions_of_inNursery hin)
      have hcount := congrArg (List.count p) hadopt
      rw [List.count_append, List.count_cons_self, hzero] at hcount
      rw [List.count_append, List.count_eq_zero.2 hnot]
      omega

/-- The start awaiter was the only one that held the promise. -/
theorem held_dropStart (hc : Custody g) {b p : ℕ} {st : Starter Err}
    (hb : g.starters.lookup b = some st) (hp : st.promise = some p) :
    ({ g with starters := g.starters.erase b }.destroy p).held p = 0 := by
  have herase := g.pledged_erase hb p
  rw [if_pos hp] at herase
  have hdrop : { g with starters := g.starters.erase b }.held p + 1 = g.held p :=
    congrArg (g.inNursery p + ·) herase
  have hle := Ledger.held_eraseTasks_le { g with starters := g.starters.erase b } p p
  exact Nat.le_zero.1 (hle.trans (Nat.le_of_succ_le_succ (hdrop.le.trans (hc.once p))))

/-- The step lemma for one promise. -/
theorem Whereabouts.entry {linked : List ℕ} {a : Action Err} {b p : ℕ}
    (hw : Whereabouts linked s.ledger b p) (hc : Custody s.ledger) (hcen : Census s)
    (h : Entry s a g) (hb : b < s.nextId) (hp : p < s.nextId) :
    Whereabouts (linked ++ (adopts s a).toList) g b p := by
  cases hw with
  | pledged hlook hst hnot =>
    rename_i st
    replace hlook : s.starters.lookup b = some st := hlook
    have hin := adoptions_of_inNursery (inNursery_of_pledged hc hlook hst)
    by_cases hbeg : begins s a = some p
    · exact .handOff hc h hp hlook hst hnot hbeg
    have hnot' : p ∉ linked ++ (adopts s a).toList := by
      rw [List.mem_append]
      exact not_or_intro hnot (adopts_ne_of_adoptions h hbeg hin).1
    rcases kept_or_dropped h hlook with ⟨st', hb'⟩ | ⟨rfl, -, hn, -⟩
    · refine .pledged hb' ?_ hnot'
      rcases change_of_entry h hb' with hl | ⟨rfl, -⟩ | ⟨st₀, hl, hch⟩
      · rw [hlook] at hl
        cases hl
        exact hst
      · exact absurd hb (lt_irrefl _)
      · rw [hlook] at hl
        cases hl
        cases hch with
        | earlyCancel hnone | startPending hnone =>
          rw [hst] at hnone
          cases hnone
        | handOff hpr hcan =>
          refine absurd ?_ hbeg
          simp [begins, hlook, hcan, hst]
        | _ => exact hst
    · cases h with
      | dropStart hl _ _ hpr =>
        rw [hlook] at hl
        cases hl
        cases hst.symm.trans hpr
        exact .gone (held_dropStart hc hlook hst) (AList.lookup_erase _ _) hnot'
      | dropStartHanded hl _ _ hpr =>
        rw [hlook] at hl
        cases hl
        rw [hst] at hpr
        cases hpr
  | passed hfree hrec hcount =>
    have hbeg : begins s a ≠ some p := fun hbeg => free_of_begins hbeg hp hfree
    refine .passed (free_of_entry h hp hfree) (handed_of_entry hc h hb hrec) ?_
    have hzero : (begins s a).toList.count p = 0 := by
      rw [List.count_eq_zero, Option.mem_toList]
      exact hbeg
    have heq := congrArg (List.count p) (adoptions_of_entry h)
    rw [List.count_append, List.count_append] at heq
    rw [List.count_append]
    omega
  | gone hheld hnone hnot =>
    have hfree := free_of_held hheld
    have hin : p ∉ s.ledger.adoptions := adoptions_of_inNursery (by rw [Ledger.held] at hheld; omega)
    have hbeg : begins s a ≠ some p := fun hbeg => free_of_begins hbeg hp hfree
    have hle := held_le_of_entry hc hcen h hp
    refine .gone (by omega) (lookup_eq_none_of_entry h hb hnone) ?_
    rw [List.mem_append]
    exact not_or_intro hnot (adopts_ne_of_adoptions h hbeg hin).1

/-- A promise that has just been made. -/
theorem whereabouts_of_makes {linked : List ℕ} {a : Action Err} {b p : ℕ} (hc : Custody s.ledger)
    (hcen : Census s) (hlinked : ∀ q ∈ linked, q < s.nextId) (h : Entry s a g)
    (hm : makes s a = some (b, p)) :
    b < g.nextId ∧ p < g.nextId ∧ Whereabouts linked g b p := by
  have hfresh : s.ledger.held s.nextId = 0 := (hc.fresh _ le_rfl).1
  have hnot : s.nextId ∉ linked := fun hmem => lt_irrefl _ (hlinked _ hmem)
  unfold makes at hm
  split at hm
  · cases hm
    cases h with
    | startPending hb hp hn =>
      exact ⟨(hcen.fresh _ _ hb).trans (Nat.lt_succ_self _), Nat.lt_succ_self _,
        .pledged (AList.lookup_insert _) rfl hnot⟩
  · cases hm

/-- A promise that is linked was being adopted. -/
theorem lt_of_adopts (hc : Custody s.ledger) {a : Action Err} {p : ℕ} (h : Entry s a g)
    (ha : adopts s a = some p) : p < s.nextId := by
  have hnext : a = .next := by
    by_contra hne
    rw [adopts_eq_none hne] at ha
    cases ha
  subst hnext
  have heq : [p] ++ g.adoptions = s.ledger.adoptions := by
    have := adoptions_of_entry h
    rwa [ha] at this
  have hmem : p ∈ s.ledger.adoptions := heq ▸ List.mem_cons_self
  refine hc.lt_of_held ?_
  have := List.count_pos_iff.2 hmem
  rw [Ledger.held, Ledger.inNursery]
  omega

/-- The step lemma. -/
theorem Handover.entry {made : List (ℕ × ℕ)} {linked : List ℕ} {a : Action Err}
    (hi : Handover made linked s.ledger) (hc : Custody s.ledger) (hcen : Census s)
    (h : Entry s a g) :
    Handover (made ++ (makes s a).toList) (linked ++ (adopts s a).toList) g := by
  have hle := nextId_le_of_entry h
  refine ⟨fun b p hmem => ?_, fun p hmem => ?_, fun b st' hb hp hn => ?_, fun b st' p hb hp hv => ?_⟩
  · rcases List.mem_append.1 hmem with hold | hnew
    · obtain ⟨hb, hp, hw⟩ := hi.made b p hold
      exact ⟨lt_of_lt_of_le hb hle, lt_of_lt_of_le hp hle, hw.entry hc hcen h hb hp⟩
    · have hm : makes s a = some (b, p) := by simpa using hnew
      have hnone : adopts s a = none := adopts_eq_none fun hne => by
        rw [hne] at hm
        cases hm
      rw [hnone, Option.toList_none, List.append_nil]
      exact whereabouts_of_makes hc hcen hi.linked h hm
  · rcases List.mem_append.1 hmem with hold | hnew
    · exact lt_of_lt_of_le (hi.linked p hold) hle
    · exact lt_of_lt_of_le (lt_of_adopts hc h (by simpa using hnew)) hle
  · rcases change_of_entry h hb with hl | ⟨-, rfl⟩ | ⟨st, hl, hch⟩
    · exact hi.unmade b st' hl hp hn
    · exact ⟨by simp, rfl, rfl⟩
    · cases hch with
      | earlyCancel => exact hi.unmade b st hl hp hn
      | adopted =>
        obtain ⟨hres, hsink, -⟩ := hi.unmade b st hl hp hn
        exact ⟨hres, hsink, rfl⟩
      | handOff | continued => cases hn
      | startPending => cases hp
      | cancel hsome | startedCancelling hsome =>
        rw [hp] at hsome
        cases hsome
      | cancelled hpar | thrown hpar => exact absurd hpar (hc.ne_starter_of_promise hl hp _)
  · rcases change_of_entry h hb with hl | ⟨-, rfl⟩ | ⟨st, hl, hch⟩
    · exact hi.waiting b st' p hl hp hv
    · cases hp
    · cases hch with
      | earlyCancel | cancel => rfl
      | startPending hnone hn =>
        obtain ⟨hres, hsink, -⟩ := hi.unmade b st hl hnone hn
        rcases hv with hv | hv
        · exact absurd hv hres
        · rw [hsink] at hv
          cases hv
      | startedCancelling _ hcan => exact hcan
      | handOff => cases hp
      | cancelled => exact hi.waiting b st p hl hp (Or.inr (hv.resolve_left (by simp)))
      | thrown => exact hi.waiting b st p hl hp (Or.inr (hv.resolve_left (by simp)))
      | continued | adopted => exact hi.waiting b st p hl hp hv

/-- The run lemma. -/
theorem handover_of_run {kind : Kind} {ok : State Err → Action Err → Prop}
    {l : List (State Err × Action Err)} (h : Run step ok (.init kind) l t) :
    Handover (events makes l) (events adopts l) t.ledger := by
  refine h.invariant_of (I := fun l s => Handover (events makes l) (events adopts l) s.ledger)
    (J := fun _ s => Books s) (fun l t hl => books_of_reach hl.reach) ?_ ?_
  · exact ⟨by simp, by simp, fun b st hb => (by cases hb), fun b st p hb => (by cases hb)⟩
  · intro l s a t hb hi _ hs
    rw [events_concat, events_concat]
    exact hi.entry hb.custody hb.census (entry_of_step hs)

end Corral.Nursery
