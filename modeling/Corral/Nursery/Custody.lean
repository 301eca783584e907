import Corral.Nursery.Ledger
import Corral.Nursery.Pending

/-!
# Who holds a promise

A promise is held by the start awaiter that has made it, by a call of `adopt()`, or by the list of
tasks, and it is handed from one to the next.

* `Prompt`: the calls that nothing can come between are on top of the stack;
* `Ledger.held`: how often a promise is held;
* `Custody`: every promise is held at most once, and by whom it reports to;
* `Reports`: so is a promise whose parent is about to learn that it is done;
* `Books`: all of this together, and `books_of_reach`, the run lemma.
-/

namespace Corral.Nursery

open ActionMachine Registry

variable {Err : Type*} {s t : State Err} {g g' : Ledger Err}

/-- The promise that is done, where its parent is about to be called. -/
def Frame.called : Frame → Option ℕ
  | .continuation _ q => q
  | _ => none

/-- The promise that `adopt()` is about to link. -/
def Frame.adopting : Frame → Option ℕ
  | .adopt p _ => some p
  | _ => none

/-! ### Calls that nothing can come between -/

/-- The parent of a promise that is done is called at once; and so is the rest of `adopt()`, in a
nursery that is not being cancelled. -/
def Prompt (s : State Err) : Prop :=
  ∀ f ∈ s.stack.tail, f.called = none ∧ (s.cancelling = false → f.adopting = none)

/-- Frames have been pushed, and frames below the first of them may be interrupted. -/
def Pushed (s t : State Err) : Prop :=
  ∃ fs base, t.stack = fs ++ base ∧ base <:+ s.stack ∧
    ∀ f ∈ fs.tail, f.called = none ∧ (s.cancelling = false → f.adopting = none)

theorem pushed_of_le_one {base : List Frame} (hb : base <:+ s.stack)
    (h : t.stack = base ∨ ∃ f, t.stack = f :: base) : Pushed s t := by
  rcases h with h | ⟨f, h⟩
  · exact ⟨[], base, h, hb, by simp⟩
  · exact ⟨[f], base, h, hb, by simp⟩

theorem stack_cancelPromise {p : ℕ} (h : s.cancelPromise p = .ok t) :
    t.stack = s.stack ∨ t.stack = .awaitCancel p :: s.stack := by
  unfold State.cancelPromise at h
  split at h
  · cases h
  · split_ifs at h <;> cases h
    · exact Or.inr rfl
    · exact Or.inl rfl

theorem stack_cancel (s : State Err) :
    s.cancel.stack = s.stack ∨ s.cancel.stack = .runSoon false :: s.stack := by
  unfold State.cancel State.doCancel
  split_ifs
  · exact Or.inl rfl
  · exact Or.inl rfl
  · exact Or.inr rfl

theorem stack_storeError {err : Err} (h : s.storeError err = .ok t) :
    t.stack = s.stack ∨ t.stack = .runSoon false :: s.stack := by
  rw [(storeError_eq h).2]
  exact stack_cancel _

theorem stack_storeInNursery {out : Outcome Err} (h : s.storeInNursery out = .ok t) :
    t.stack = s.stack ∨ t.stack = .runSoon false :: s.stack := by
  cases out with
  | error err => exact stack_storeError h
  | join | cancel => cases h; exact Or.inl rfl

theorem stack_storeInScope {out : Outcome Err} (h : s.storeInScope out = .ok t) :
    t.stack = s.stack ∨ t.stack = .runSoon false :: s.stack := by
  cases out with
  | error err => exact stack_storeError h
  | join => cases h; exact Or.inl rfl
  | cancel => cases h; exact stack_cancel s

theorem stack_cancelled (s : State Err) (par : Parent) : (s.cancelled par).stack = s.stack := by
  unfold State.cancelled
  split
  · split <;> rfl
  · rfl

theorem stack_propagateCancel {p : ℕ} {pr : Promise} (h : s.propagateCancel p pr = .ok t) :
    ∃ f, t.stack = f :: s.stack := by
  unfold State.propagateCancel at h
  split at h
  · cases h
  · cases h
    exact ⟨_, congrArg (List.cons _) (stack_cancelled _ _)⟩

theorem stack_doResumeAfterCancel {p : ℕ} {pr : Promise} {mustResume : Bool}
    (h : s.doResumeAfterCancel p pr mustResume = .ok t) :
    t.stack = s.stack ∨ ∃ f, t.stack = f :: s.stack := by
  unfold State.doResumeAfterCancel at h
  split_ifs at h
  · cases h
    exact Or.inl rfl
  · exact Or.inr (stack_propagateCancel h)

theorem stack_hookAwaitSuspend {p : ℕ} {pr : Promise} {ans : Answers}
    (h : s.hookAwaitSuspend p pr ans = .ok t) :
    t.stack = s.stack ∨ ∃ f, t.stack = f :: s.stack := by
  unfold State.hookAwaitSuspend at h
  simp only at h
  split_ifs at h
  · exact Or.inr (stack_propagateCancel h)
  · exact stack_doResumeAfterCancel h
  · cases h
    exact Or.inl rfl
  · cases h
    exact Or.inl rfl

theorem pushed_adopt {p : ℕ} {par : Parent} {u : State Err} (h : u.adopt p par = .ok t)
    (hb : u.stack <:+ s.stack) (hc : u.cancelling = s.cancelling) : Pushed s t := by
  unfold State.adopt at h
  split_ifs at h with he hcan
  · have hnot : ¬ s.cancelling = false := by simp [← hc, hcan]
    rcases stack_cancelPromise h with ht | ht
    · exact pushed_of_le_one hb (Or.inr ⟨_, ht⟩)
    · exact ⟨[.awaitCancel p, .adopt p par], u.stack, ht, hb, by simp [Frame.called, hnot]⟩
  · cases h
    exact pushed_of_le_one hb (Or.inr ⟨_, rfl⟩)

theorem pushed_addPromise {par : Parent} {u : State Err} (h : u.addPromise par = .ok t)
    (hb : u.stack <:+ s.stack) (hc : u.cancelling = s.cancelling) : Pushed s t :=
  pushed_adopt h hb hc

theorem pushed_startSuspend {a : ℕ} {st : Starter Err} {failure : Option Err}
    (h : s.startSuspend a st failure = .ok t) : Pushed s t := by
  unfold State.startSuspend at h
  split at h
  · cases h
    exact pushed_of_le_one (List.suffix_refl _) (Or.inl rfl)
  · split at h <;> cases h

theorem pushed_markStarted {a p : ℕ} {st : Starter Err} (h : s.markStarted a st p = .ok t) :
    Pushed s t := by
  unfold State.markStarted at h
  simp only at h
  split at h
  · cases h
    exact pushed_of_le_one (List.suffix_refl _) (Or.inl rfl)
  · split at h
    · exact pushed_adopt h (List.suffix_refl _) rfl
    · cases h

theorem pushed_store {par : Parent} {out : Outcome Err} {u : State Err} (h : u.store par out = .ok t)
    (hb : u.stack <:+ s.stack) : Pushed s t := by
  cases par with
  | nursery => exact pushed_of_le_one hb ((stack_storeInNursery h).imp_right fun ht => ⟨_, ht⟩)
  | scope => exact pushed_of_le_one hb ((stack_storeInScope h).imp_right fun ht => ⟨_, ht⟩)
  | starter a =>
    simp only [State.store, State.storeInStarter] at h
    split at h
    · cases h
    · split at h
      · cases h
        exact pushed_of_le_one hb (Or.inl rfl)
      · split_ifs at h
        cases h
        exact pushed_of_le_one hb (Or.inl rfl)

theorem pushed_execute {cb : Callback} {u : State Err} (h : u.execute cb = .ok t)
    (hb : u.stack <:+ s.stack) : Pushed s t := by
  cases cb with
  | run p =>
    simp only [State.execute] at h
    split at h <;> cases h
    exact pushed_of_le_one hb (Or.inl rfl)
  | cancel p => exact pushed_of_le_one hb ((stack_cancelPromise h).imp_right fun ht => ⟨_, ht⟩)
  | destroy p | resumeParent =>
    cases h
    exact pushed_of_le_one hb (Or.inl rfl)
  | cancelNursery =>
    cases h
    exact pushed_of_le_one hb ((stack_cancel _).imp_right fun ht => ⟨_, ht⟩)

theorem pushed_perform {a : Action Err} (h : s.perform a = .ok t) : Pushed s t := by
  have hself : s.stack <:+ s.stack := List.suffix_refl _
  cases performed_of_perform h with
  | openScope | closeEmpty | close | finalSuspend => exact pushed_of_le_one hself (Or.inr ⟨_, rfl⟩)
  | joinClosed | joinEmpty | join | asyncCloseEmpty | newStart | startEarlyCancel | startCancelHanded
  | dropStart | dropStartHanded | resumeNothing | resume => exact pushed_of_le_one hself (Or.inl rfl)
  | bodyPromise hst h => exact pushed_addPromise h (hst ▸ List.suffix_cons _ _) rfl
  | @bodyDone below _ _ hst h =>
    have hb : below <:+ s.stack := hst ▸ List.suffix_cons _ _
    rcases stack_storeInScope h with ht | ht
    · exact pushed_of_le_one hb (Or.inr ⟨_, ht⟩)
    · refine ⟨[.runSoon false, .continuation .scope none], below, ht, hb, ?_⟩
      simp [Frame.called, Frame.adopting]
  | asyncClose | cancel =>
    exact pushed_of_le_one hself ((stack_cancel _).imp_right fun ht => ⟨_, ht⟩)
  | startPromise h => exact pushed_addPromise h hself rfl
  | startDone h => exact pushed_of_le_one hself ((stack_storeInNursery h).imp_right fun ht => ⟨_, ht⟩)
  | startSuspend ha hp hn h => exact pushed_startSuspend h
  | startCancel ha hh hc hp h =>
    exact pushed_of_le_one hself ((stack_cancelPromise h).imp_right fun ht => ⟨_, ht⟩)
  | started ha hs hp h => exact pushed_markStarted h
  | await hp hs h => exact pushed_of_le_one hself (stack_hookAwaitSuspend h)
  | resumeAfterCancel hp hs hon h => exact pushed_of_le_one hself (stack_doResumeAfterCancel h)
  | @cancelConfirmed p pr below _ hst hp hs h =>
    have hb : below <:+ s.stack := hst ▸ List.suffix_cons _ _
    exact pushed_of_le_one hb (Or.inr (stack_propagateCancel h))
  | @cancelRefused p below hst =>
    have hb : below <:+ s.stack := hst ▸ List.suffix_cons _ _
    exact pushed_of_le_one hb (Or.inl rfl)
  | storeResult hp hs hpar h => exact pushed_store h hself
  | callback hcb h => exact pushed_execute h hself

/-- The call on top is replaced by at most one other. -/
theorem stack_next (h : s.next = .ok t) :
    t.stack = s.stack.tail ∨ ∃ f, t.stack = f :: s.stack.tail := by
  unfold State.next at h
  split at h
  · rename_i hst
    unfold State.startContinuation at h
    split at h
    · cases h
    · cases h
      split_ifs <;> exact Or.inl (by rw [hst]; rfl)
  · rename_i par q below _ hst
    obtain ⟨b, hb⟩ := exists_dropBackref { s with stack := below }
    unfold State.continuation at h
    rw [hb] at h
    simp only at h
    have hsub : ∀ (u : State Err) (ret : Bool), u.stack = below →
        (u.submitResume ret).stack = below ∨ ∃ f, (u.submitResume ret).stack = f :: below := by
      intro u ret hu
      cases ret with
      | true => exact Or.inr ⟨_, congrArg _ hu⟩
      | false => exact Or.inl hu
    rw [hst]
    cases q with
    | some p =>
      split at h
      · cases h
      · cases h
        refine Or.inr ⟨_, congrArg (List.cons _) ?_⟩
        simp only [State.submit]
        split_ifs <;> rfl
    | none =>
      split at h
      · cases h
      · cases h
        apply hsub
        split_ifs <;> rfl
  · rename_i hst
    unfold State.adopted at h
    rw [hst]
    split at h
    · cases h
    · split at h
      · split at h <;> cases h
        exact Or.inl rfl
      · cases h
        exact Or.inl rfl
  · rename_i ret below hst
    cases h
    rw [hst]
    cases ret with
    | true => exact Or.inr ⟨_, rfl⟩
    | false => exact Or.inl rfl
  · rename_i hst
    rw [hst]
    split_ifs at h
    cases h
    exact Or.inl rfl
  · cases h

/-- The nursery is never un-cancelled. -/
theorem cancelling_of_entry {a : Action Err} (h : Entry s a g) (hc : s.cancelling = true) :
    g.cancelling = true := by
  have hst : ∀ {g₁ g₂ : Ledger Err}, g₁.Stores g₂ → g₁.cancelling = true → g₂.cancelling = true := by
    rintro g₁ g₂ ⟨e, c, ps, -, hc, rfl⟩ h₁
    exact hc h₁
  have hcan : ∀ (p : ℕ) (par : Parent), ((s.ledger.cancelled par).finish p par).cancelling = true := by
    intro p par
    obtain ⟨sts, hsts⟩ := s.ledger.exists_cancelled par
    rw [hsts]
    exact hc
  cases h with
  | bodyDone => exact hst (Ledger.stores_storeInScope _ _) hc
  | asyncClose | cancel | cancelNursery => exact hst (Ledger.stores_cancel _) hc
  | startDone | storeInNursery => exact hst (Ledger.stores_storeInNursery _ _) hc
  | storeInScope => exact hst (Ledger.stores_storeInScope _ _) hc
  | awaitCancelled | resumeCancelled | cancelConfirmed => exact hcan _ _
  | continuation =>
    unfold Ledger.closeIfFinished
    split_ifs <;> exact hc
  | _ => exact hc

/-- While other code has control, no such call is in progress. -/
theorem Prompt.idle (hp : Prompt s) (ho : othersInControl s.stack = true) {f : Frame}
    (hf : f ∈ s.stack) : f.called = none ∧ (s.cancelling = false → f.adopting = none) := by
  unfold Prompt at hp
  cases hst : s.stack with
  | nil => rw [hst] at hf; cases hf
  | cons top below =>
    rw [hst] at hp ho hf
    rcases List.mem_cons.1 hf with rfl | hf
    · cases f <;> simp_all [othersInControl, Frame.called, Frame.adopting]
    · exact hp f hf

theorem Prompt.step {a : Action Err} (hp : Prompt s) (h : step s a = .ok t) : Prompt t := by
  have hc : t.cancelling = false → s.cancelling = false := fun ht => by
    by_contra hs
    have htrue : t.cancelling = true :=
      cancelling_of_entry (entry_of_step h) (by simpa using hs)
    rw [ht] at htrue
    cases htrue
  intro f hf
  unfold Nursery.step at h
  split at h
  · have hmem : f ∈ s.stack.tail := by
      rcases stack_next h with ht | ⟨f', ht⟩
      · rw [ht] at hf
        exact List.mem_of_mem_tail hf
      · rwa [ht] at hf
    exact (hp f hmem).imp_right fun hidle ht => hidle (hc ht)
  · split_ifs at h with ho
    obtain ⟨fs, base, hst, hb, hfs⟩ := pushed_perform h
    rw [hst] at hf
    have hmem : f ∈ fs.tail ∨ f ∈ base := by
      cases fs with
      | nil => exact Or.inr (List.mem_of_mem_tail hf)
      | cons f' fs => exact List.mem_append.1 hf
    rcases hmem with hmem | hmem
    · exact (hfs f hmem).imp_right fun hidle ht => hidle (hc ht)
    · exact (hp.idle ho (hb.subset hmem)).imp_right fun hidle ht => hidle (hc ht)

theorem othersInControl_of_step {a : Action Err} (h : step s a = .ok t) (ha : a ≠ .next) :
    othersInControl s.stack = true := by
  unfold Nursery.step at h
  split at h
  · exact absurd rfl ha
  · split_ifs at h with ho
    exact ho

/-- No parent is about to be called when anything else is done; -/
theorem Prompt.called_eq_none {a : Action Err} (hp : Prompt s) (h : Nursery.step s a = .ok t)
    (ha : a ≠ .next) {f : Frame} (hf : f ∈ s.ledger.calls) : f.called = none :=
  (hp.idle (othersInControl_of_step h ha) (List.mem_filter.1 hf).1).1

/-- and none below the call on top. -/
theorem Prompt.called_below {top : Frame} {below : List Frame} (hp : Prompt s)
    (hst : s.stack = top :: below) {f : Frame} (hf : f ∈ below.filter Frame.own) :
    f.called = none := by
  have hmem : f ∈ s.stack.tail := by
    rw [hst]
    exact (List.mem_filter.1 hf).1
  exact (hp f hmem).1

/-! ### The holders of a promise -/

/-- The promise that a callback is about. -/
def Callback.subject : Callback → Option ℕ
  | .cancel p => some p
  | .destroy p => some p
  | _ => none

namespace Ledger

/-- The promises that are being adopted. -/
def adoptions (g : Ledger Err) : List ℕ := g.calls.filterMap Frame.adopting

/-- How often the nursery holds the promise. -/
def inNursery (g : Ledger Err) (p : ℕ) : ℕ := g.tasks.count p + g.adoptions.count p

/-- How many start awaiters hold the promise. -/
def pledged (g : Ledger Err) (p : ℕ) : ℕ := count (fun st => decide (st.promise = some p)) g.starters

/-- How often the promise is held. -/
def held (g : Ledger Err) (p : ℕ) : ℕ := g.inNursery p + g.pledged p

theorem adoptions_cons {f : Frame} {cs : List Frame} (hcs : g.calls = f :: cs) :
    g.adoptions = f.adopting.toList ++ cs.filterMap Frame.adopting := by
  rw [adoptions, hcs, List.filterMap_cons]
  cases f.adopting <;> rfl

theorem pledged_setStarter {a : ℕ} {st : Starter Err} (ha : g.starters.lookup a = some st)
    (st' : Starter Err) (p : ℕ) :
    (g.setStarter a st').pledged p + (if st.promise = some p then 1 else 0) =
      g.pledged p + if st'.promise = some p then 1 else 0 := by
  have h := count_insert (fun st => decide (st.promise = some p)) st' ha
  simp only [decide_eq_true_eq] at h
  exact h

theorem pledged_erase {a : ℕ} {st : Starter Err} (ha : g.starters.lookup a = some st) (p : ℕ) :
    count (fun st => decide (st.promise = some p)) (g.starters.erase a) +
      (if st.promise = some p then 1 else 0) = g.pledged p := by
  have h := count_erase (fun st : Starter Err => decide (st.promise = some p)) ha
  simp only [decide_eq_true_eq] at h
  exact h

theorem pledged_pos {a p : ℕ} {st : Starter Err} (ha : g.starters.lookup a = some st)
    (hp : st.promise = some p) : 0 < g.pledged p := by
  have h := pledged_erase ha p
  rw [if_pos hp] at h
  omega

/-- No two start awaiters hold one promise. -/
theorem pledged_unique {a b p : ℕ} {st st' : Starter Err} (hone : g.pledged p ≤ 1)
    (ha : g.starters.lookup a = some st) (hp : st.promise = some p)
    (hb : g.starters.lookup b = some st') (hp' : st'.promise = some p) : a = b := by
  by_contra hne
  have h := pledged_erase ha p
  have hb' : { g with starters := g.starters.erase a }.starters.lookup b = some st' := by
    rw [lookup_erase_eq, if_neg (Ne.symm hne), hb]
  have hpos := pledged_pos hb' hp'
  simp only [pledged] at h hone hpos
  rw [if_pos hp] at h
  omega

theorem inNursery_eq_zero (ht : g.tasks = []) (had : g.adoptions = []) (q : ℕ) :
    g.inNursery q = 0 := by
  rw [inNursery, ht, had]
  rfl

@[simp] theorem held_setParent (g : Ledger Err) (p : ℕ) (par : Option Parent) (q : ℕ) :
    (g.setParent p par).held q = g.held q := rfl

/-- A start awaiter changes something else than the promise it holds. -/
theorem held_setStarter {a : ℕ} {st st' : Starter Err} (ha : g.starters.lookup a = some st)
    (hp : st'.promise = st.promise) (q : ℕ) : (g.setStarter a st').held q = g.held q := by
  have hpl := g.pledged_setStarter ha st' q
  rw [hp] at hpl
  have hin : (g.setStarter a st').inNursery q = g.inNursery q := rfl
  simp only [held]
  omega

theorem held_newStart (hfresh : g.starters.lookup g.nextId = none) {st : Starter Err}
    (hst : st.promise = none) (q : ℕ) :
    ({ g with nextId := g.nextId + 1 }.setStarter g.nextId st).held q = g.held q := by
  have h := count_insert_new (fun st => decide (st.promise = some q)) st hfresh
  simp only [hst, reduceCtorEq, decide_false, Bool.false_eq_true, if_false, Nat.add_zero] at h
  exact congrArg (g.inNursery q + ·) h

/-- A start awaiter gets a promise. -/
theorem held_pledge {a p : ℕ} {st st' : Starter Err} (ha : g.starters.lookup a = some st)
    (hp : st.promise = none) (hp' : st'.promise = some p) (q : ℕ) :
    (g.setStarter a st').held q = g.held q + if p = q then 1 else 0 := by
  have hpl := g.pledged_setStarter ha st' q
  rw [hp, hp'] at hpl
  simp only [reduceCtorEq, if_false, Option.some.injEq] at hpl
  have hin : (g.setStarter a st').inNursery q = g.inNursery q := rfl
  simp only [held]
  omega

/-- A start awaiter gives its promise away. -/
theorem held_release {a p : ℕ} {st st' : Starter Err} (ha : g.starters.lookup a = some st)
    (hp : st.promise = some p) (hp' : st'.promise = none) (q : ℕ) :
    (g.setStarter a st').held q + (if p = q then 1 else 0) = g.held q := by
  have hpl := g.pledged_setStarter ha st' q
  rw [hp, hp'] at hpl
  simp only [reduceCtorEq, if_false, Option.some.injEq] at hpl
  have hin : (g.setStarter a st').inNursery q = g.inNursery q := rfl
  simp only [held]
  omega

theorem inNursery_push_adopt (g : Ledger Err) (p : ℕ) (par : Parent) (q : ℕ) :
    (g.push (.adopt p par)).inNursery q = g.inNursery q + if p = q then 1 else 0 := by
  simp only [inNursery, adoptions, push, List.filterMap_cons, Frame.adopting, List.count_cons,
    beq_iff_eq]
  omega

theorem held_push_adopt (g : Ledger Err) (p : ℕ) (par : Parent) (q : ℕ) :
    (g.push (.adopt p par)).held q = g.held q + if p = q then 1 else 0 := by
  have hin := g.inNursery_push_adopt p par q
  have hpl : (g.push (.adopt p par)).pledged q = g.pledged q := rfl
  simp only [held]
  omega

theorem held_addPromise (g : Ledger Err) (par : Parent) (q : ℕ) :
    (g.addPromise par).held q = g.held q + if g.nextId = q then 1 else 0 :=
  held_push_adopt { g.setParent g.nextId none with nextId := g.nextId + 1 } g.nextId par q

theorem held_addPromise_of_lt (g : Ledger Err) (par : Parent) {q : ℕ} (hq : q < g.nextId) :
    (g.addPromise par).held q = g.held q := by
  rw [held_addPromise, if_neg hq.ne', Nat.add_zero]

/-- A call returns that adopts nothing. -/
theorem inNursery_pop {f : Frame} {cs : List Frame} (hcs : g.calls = f :: cs)
    (hf : f.adopting = none) (q : ℕ) : { g with calls := cs }.inNursery q = g.inNursery q := by
  simp only [inNursery, adoptions, hcs, List.filterMap_cons_none hf]

theorem held_pop {f : Frame} {cs : List Frame} (hcs : g.calls = f :: cs)
    (hf : f.adopting = none) (q : ℕ) : { g with calls := cs }.held q = g.held q :=
  congrArg (· + g.pledged q) (inNursery_pop hcs hf q)

/-- A call is entered that adopts nothing. -/
theorem held_push (g : Ledger Err) {f : Frame} (hf : f.adopting = none) (q : ℕ) :
    (g.push f).held q = g.held q := by
  have hpop : { g.push f with calls := g.calls }.held q = (g.push f).held q := held_pop rfl hf q
  exact hpop.symm

/-- The promise that is being adopted is linked. -/
theorem inNursery_adopted {p : ℕ} {par : Parent} {cs : List Frame} (n : UInt32)
    (hcs : g.calls = .adopt p par :: cs) (hnot : p ∉ g.tasks) (q : ℕ) :
    { g with calls := cs, tasks := g.tasks.erase p ++ [p], taskCount := n }.inNursery q =
      g.inNursery q := by
  rw [inNursery, inNursery, adoptions_cons hcs, adoptions, List.erase_of_not_mem hnot]
  simp only [Frame.adopting, Option.toList_some, List.singleton_append, List.count_append,
    List.count_cons, List.count_nil]
  omega

theorem held_eraseTasks_le (g : Ledger Err) (p q : ℕ) :
    { g with tasks := g.tasks.erase p }.held q ≤ g.held q := by
  have hle : (g.tasks.erase p).count q ≤ g.tasks.count q :=
    List.Sublist.count_le _ List.erase_sublist
  exact Nat.add_le_add_right (Nat.add_le_add_right hle _) _

theorem held_eraseStarter_le {a : ℕ} {st : Starter Err} (ha : g.starters.lookup a = some st)
    (q : ℕ) : { g with starters := g.starters.erase a }.held q ≤ g.held q := by
  have hpl := g.pledged_erase ha q
  refine Nat.add_le_add_left ?_ _
  simp only [pledged] at *
  omega

end Ledger

/-- In a nursery that is not being cancelled, nothing is being adopted when anything else is done; -/
theorem Prompt.adoptions_eq_nil {a : Action Err} (hp : Prompt s) (h : Nursery.step s a = .ok t)
    (ha : a ≠ .next) (hc : s.cancelling = false) : s.ledger.adoptions = [] := by
  refine List.filterMap_eq_nil_iff.2 fun f hf => ?_
  exact (hp.idle (othersInControl_of_step h ha) (List.mem_filter.1 hf).1).2 hc

/-- nor below the call on top. -/
theorem Prompt.adoptions_below {top : Frame} {below : List Frame} (hp : Prompt s)
    (hst : s.stack = top :: below) (hc : s.cancelling = false) :
    (below.filter Frame.own).filterMap Frame.adopting = [] := by
  refine List.filterMap_eq_nil_iff.2 fun f hf => ?_
  have hmem : f ∈ s.stack.tail := by
    rw [hst]
    exact (List.mem_filter.1 hf).1
  exact (hp f hmem).2 hc

/-- Every promise is held at most once, and its parent holds it. -/
structure Custody (g : Ledger Err) : Prop where
  once : ∀ p, g.held p ≤ 1
  fresh : ∀ p, g.nextId ≤ p → g.held p = 0 ∧ g.parents p = none
  duty : ∀ cb ∈ g.duties, ∀ p, cb.subject = some p → p < g.nextId
  starter : ∀ p a, g.parents p = some (some (.starter a)) →
    ∃ st, g.starters.lookup a = some st ∧ st.promise = some p ∧ st.nursery = true
  linked : ∀ p par, g.parents p = some (some par) → (∀ a, par ≠ .starter a) → 0 < g.inNursery p

/-- A promise whose parent is about to be called is done, and held by that parent. -/
structure Reports (g : Ledger Err) : Prop where
  body : ∀ a, .continuation (.starter a) none ∉ g.calls
  done : ∀ par p, .continuation par (some p) ∈ g.calls → g.parents p = some none
  starter : ∀ a p, .continuation (.starter a) (some p) ∈ g.calls →
    ∃ st, g.starters.lookup a = some st ∧ st.promise = some p ∧ st.nursery = true
  linked : ∀ par p, .continuation par (some p) ∈ g.calls → (∀ a, par ≠ .starter a) →
    0 < g.inNursery p

namespace Custody

theorem lt_of_held (hi : Custody g) {p : ℕ} (h : 0 < g.held p) : p < g.nextId := by
  by_contra hle
  have hzero := (hi.fresh p (not_lt.1 hle)).1
  omega

theorem lt_of_parents (hi : Custody g) {p : ℕ} {par : Option Parent}
    (h : g.parents p = some par) : p < g.nextId := by
  by_contra hle
  rw [(hi.fresh p (not_lt.1 hle)).2] at h
  cases h

/-- No promise is made. -/
theorem of_moved (hi : Custody g) (hn : g'.nextId = g.nextId)
    (hheld : ∀ p, g'.held p ≤ g.held p) (hpar : ∀ p, g.parents p = none → g'.parents p = none)
    (hd : ∀ cb ∈ g'.duties, cb ∈ g.duties ∨ ∀ p, cb.subject = some p → p < g.nextId)
    (hst : ∀ p a, g'.parents p = some (some (.starter a)) →
      ∃ st, g'.starters.lookup a = some st ∧ st.promise = some p ∧ st.nursery = true)
    (hin : ∀ p par, g'.parents p = some (some par) → (∀ a, par ≠ .starter a) →
      0 < g'.inNursery p) : Custody g' := by
  refine ⟨fun p => (hheld p).trans (hi.once p), fun p h => ?_, fun cb hcb p hs => ?_, hst, hin⟩
  · rw [hn] at h
    have := (hi.fresh p h).1
    have := hheld p
    exact ⟨by omega, hpar p (hi.fresh p h).2⟩
  · rw [hn]
    exact (hd cb hcb).elim (fun hcb => hi.duty cb hcb p hs) fun hlt => hlt p hs

/-- Nothing reports to a start awaiter that holds no promise, -/
theorem ne_starter_of_promise (hi : Custody g) {a : ℕ} {st : Starter Err}
    (ha : g.starters.lookup a = some st) (hp : st.promise = none) (p : ℕ) :
    g.parents p ≠ some (some (.starter a)) := by
  intro h
  obtain ⟨st', ha', hp', -⟩ := hi.starter p a h
  rw [ha] at ha'
  cases ha'
  rw [hp] at hp'
  cases hp'

/-- or to one that has been counted off. -/
theorem ne_starter_of_nursery (hi : Custody g) {a : ℕ} {st : Starter Err}
    (ha : g.starters.lookup a = some st) (hn : st.nursery = false) (p : ℕ) :
    g.parents p ≠ some (some (.starter a)) := by
  intro h
  obtain ⟨st', ha', -, hn'⟩ := hi.starter p a h
  rw [ha] at ha'
  cases ha'
  rw [hn] at hn'
  cases hn'

/-- Only the counters, the flags and the callbacks change. -/
theorem of_same (hi : Custody g) (ht : g'.tasks = g.tasks) (hc : g'.calls = g.calls)
    (hst : g'.starters = g.starters) (hn : g'.nextId = g.nextId) (hp : g'.parents = g.parents)
    (hd : ∀ cb ∈ g'.duties, cb ∈ g.duties ∨ ∀ p, cb.subject = some p → p < g.nextId) :
    Custody g' := by
  have hin : ∀ p, g'.inNursery p = g.inNursery p := fun p => by
    rw [Ledger.inNursery, Ledger.inNursery, Ledger.adoptions, Ledger.adoptions, ht, hc]
  have hheld : ∀ p, g'.held p = g.held p := fun p => by
    rw [Ledger.held, Ledger.held, hin, Ledger.pledged, Ledger.pledged, hst]
  refine hi.of_moved hn (fun p => (hheld p).le) (fun p h => by rwa [hp]) hd (fun p a h => ?_)
    fun p par h hne => ?_
  · rw [hst]
    exact hi.starter p a (hp ▸ h)
  · rw [hin]
    exact hi.linked p par (hp ▸ h) hne

theorem stores (hi : Custody g) (h : g.Stores g') : Custody g' := by
  obtain ⟨e, c, ps, hps, -, rfl⟩ := h
  refine hi.of_same rfl rfl rfl rfl rfl fun cb hcb => ?_
  rcases List.mem_append.1 hcb with hcb | hcb
  · exact Or.inl hcb
  · obtain ⟨p, hp, rfl⟩ := List.mem_map.1 hcb
    have hheld : 0 < g.held p := by
      have := List.count_pos_iff.2 (hps hp)
      simp only [Ledger.held, Ledger.inNursery]
      omega
    refine Or.inr fun q hq => ?_
    cases hq
    exact hi.lt_of_held hheld

theorem submit (hi : Custody g) {cb : Callback} (hcb : cb.subject = none) :
    Custody (g.submit cb) := by
  refine hi.of_same rfl rfl rfl rfl rfl fun cb' h => ?_
  rcases List.mem_append.1 h with h | h
  · exact Or.inl h
  · rw [List.mem_singleton.1 h, hcb]
    exact Or.inr (by simp)

theorem unqueue (hi : Custody g) (cb : Callback) :
    Custody { g with duties := g.duties.erase cb } :=
  hi.of_same rfl rfl rfl rfl rfl fun _ h => Or.inl (List.mem_of_mem_erase h)

/-- A call is entered, or returns, that does not adopt anything. -/
theorem of_calls (hi : Custody g) {cs : List Frame}
    (h : cs.filterMap Frame.adopting = g.adoptions) : Custody { g with calls := cs } := by
  have hin : ∀ p, { g with calls := cs }.inNursery p = g.inNursery p := fun p => by
    rw [Ledger.inNursery, Ledger.inNursery, ← h]
    rfl
  refine hi.of_moved rfl (fun p => ?_) (fun _ h => h) (fun _ h => Or.inl h) hi.starter
    fun p par hp hne => ?_
  · rw [Ledger.held, hin]
    rfl
  · rw [hin]
    exact hi.linked p par hp hne

theorem push (hi : Custody g) {f : Frame} (hf : f.adopting = none) : Custody (g.push f) :=
  hi.of_calls (by rw [List.filterMap_cons_none hf, Ledger.adoptions])

theorem pop (hi : Custody g) {f : Frame} {cs : List Frame} (hcs : g.calls = f :: cs)
    (hf : f.adopting = none) : Custody { g with calls := cs } :=
  hi.of_calls (by rw [Ledger.adoptions, hcs, List.filterMap_cons_none hf])

/-- A start awaiter changes something else than what it holds. -/
theorem setStarter (hi : Custody g) {a : ℕ} {st st' : Starter Err}
    (ha : g.starters.lookup a = some st) (hp : st'.promise = st.promise)
    (hn : st'.nursery = false → ∀ p, g.parents p ≠ some (some (.starter a))) :
    Custody (g.setStarter a st') := by
  refine hi.of_moved rfl (fun p => (Ledger.held_setStarter ha hp p).le) (fun _ h => h)
    (fun _ h => Or.inl h) (fun p b h => ?_) hi.linked
  obtain ⟨stb, hb, hpb, hnb⟩ := hi.starter p b h
  by_cases hab : b = a
  · subst hab
    rw [ha] at hb
    cases hb
    refine ⟨st', by simp [Ledger.setStarter], hp.trans hpb, ?_⟩
    by_contra hne
    exact hn (by simpa using hne) p h
  · exact ⟨stb, by simp [Ledger.setStarter, AList.lookup_insert_ne hab, hb], hpb, hnb⟩

theorem cancelled (hi : Custody g) (par : Parent) : Custody (g.cancelled par) := by
  unfold Ledger.cancelled
  split
  · rename_i a
    split
    · rename_i st ha
      exact hi.setStarter ha rfl fun hn p => hi.ne_starter_of_nursery ha hn p
    · exact hi
  · exact hi

theorem newStart (hi : Custody g) (hfresh : g.starters.lookup g.nextId = none)
    {st : Starter Err} (hst : st.promise = none) :
    Custody ({ g with nextId := g.nextId + 1 }.setStarter g.nextId st) := by
  refine ⟨fun p => ?_, fun p h => ?_,
    fun cb hcb p hs => (hi.duty cb hcb p hs).trans (Nat.lt_succ_self _), fun p a h => ?_, hi.linked⟩
  · rw [Ledger.held_newStart hfresh hst]
    exact hi.once p
  · rw [Ledger.held_newStart hfresh hst]
    exact hi.fresh p (Nat.le_of_succ_le h)
  · obtain ⟨sta, ha, hpa, hna⟩ := hi.starter p a h
    have hne : a ≠ g.nextId := fun heq => by
      rw [heq, hfresh] at ha
      cases ha
    exact ⟨sta, by simp [Ledger.setStarter, AList.lookup_insert_ne hne, ha], hpa, hna⟩

/-- The next identity is given to a promise that somebody holds. -/
theorem of_new (hi : Custody g) (hn : g'.nextId = g.nextId + 1)
    (hheld : ∀ p, g'.held p = g.held p + if g.nextId = p then 1 else 0)
    (hpar : ∀ p, p ≠ g.nextId → g'.parents p = g.parents p) (hd : g'.duties = g.duties)
    (hst : ∀ p a, g'.parents p = some (some (.starter a)) →
      ∃ st, g'.starters.lookup a = some st ∧ st.promise = some p ∧ st.nursery = true)
    (hin : ∀ p par, g'.parents p = some (some par) → (∀ a, par ≠ .starter a) →
      0 < g'.inNursery p) : Custody g' := by
  refine ⟨fun p => ?_, fun p h => ?_, fun cb hcb p hs => ?_, hst, hin⟩
  · rw [hheld]
    split_ifs with hp
    · rw [(hi.fresh p hp.le).1]
    · exact hi.once p
  · rw [hn] at h
    rw [hheld, if_neg (by omega), hpar p (by omega)]
    exact hi.fresh p (Nat.le_of_succ_le h)
  · rw [hn]
    exact (hi.duty cb (hd ▸ hcb) p hs).trans (Nat.lt_succ_self _)

/-- `adopt()` begins with a promise that has just been made. -/
theorem addPromise (hi : Custody g) (par : Parent) : Custody (g.addPromise par) := by
  have hpar : ∀ p, p ≠ g.nextId → (g.addPromise par).parents p = g.parents p :=
    fun p hp => Function.update_of_ne hp _ _
  have hnew : (g.addPromise par).parents g.nextId = some none := Function.update_self _ _ _
  have hold : ∀ p par', (g.addPromise par).parents p = some (some par') →
      g.parents p = some (some par') := by
    intro p par' h
    by_cases hp : p = g.nextId
    · rw [hp, hnew] at h
      cases h
    · rwa [hpar p hp] at h
  refine hi.of_new rfl (g.held_addPromise par) hpar rfl
    (fun p a h => hi.starter p a (hold p _ h)) fun p par' h hne => ?_
  have hin := Ledger.inNursery_push_adopt
    { g.setParent g.nextId none with nextId := g.nextId + 1 } g.nextId par p
  rw [Ledger.addPromise, hin]
  exact Nat.add_pos_left (hi.linked p par' (hold p _ h) hne) _

/-- A start awaiter makes a promise. -/
theorem startPending (hi : Custody g) {a n : ℕ} {st st' : Starter Err}
    (ha : g.starters.lookup a = some st) (hp : st.promise = none)
    (hp' : st'.promise = some g.nextId) (hn' : st'.nursery = true) :
    Custody (({ g with pendingTaskCount := n, nextId := g.nextId + 1 }.setStarter a st').setParent
      g.nextId (some (.starter a))) := by
  set g' := ({ g with pendingTaskCount := n, nextId := g.nextId + 1 }.setStarter a st').setParent
    g.nextId (some (.starter a)) with hg'
  have hheld : ∀ p, g'.held p = g.held p + if g.nextId = p then 1 else 0 :=
    g.held_pledge ha hp hp'
  have hpar : ∀ p, p ≠ g.nextId → g'.parents p = g.parents p :=
    fun p hne => Function.update_of_ne hne _ _
  have hnew : g'.parents g.nextId = some (some (.starter a)) := Function.update_self _ _ _
  refine hi.of_new rfl hheld hpar rfl (fun p b h => ?_) fun p par h hne => ?_
  · by_cases hpn : p = g.nextId
    · subst hpn
      rw [hnew] at h
      cases h
      exact ⟨st', by simp [hg', Ledger.setStarter, Ledger.setParent], hp', hn'⟩
    · rw [hpar p hpn] at h
      obtain ⟨stb, hb, hpb, hnb⟩ := hi.starter p b h
      have hba : b ≠ a := fun heq => by
        rw [heq, ha] at hb
        cases hb
        rw [hp] at hpb
        cases hpb
      refine ⟨stb, ?_, hpb, hnb⟩
      simp [hg', Ledger.setStarter, Ledger.setParent, AList.lookup_insert_ne hba, hb]
  · have hpn : p ≠ g.nextId := fun heq => by
      rw [heq, hnew] at h
      cases h
      exact hne a rfl
    rw [hpar p hpn] at h
    exact hi.linked p par h hne

/-- A start awaiter hands its promise over to `adopt()`. -/
theorem handOff (hi : Custody g) {a p n : ℕ} {st st' : Starter Err}
    (ha : g.starters.lookup a = some st) (hp : st.promise = some p) (hp' : st'.promise = none) :
    Custody ((({ g with pendingTaskCount := n }.setStarter a st').setParent p
      (some .nursery)).push (.adopt p (.starter a))) := by
  set g' := (({ g with pendingTaskCount := n }.setStarter a st').setParent p
    (some .nursery)).push (.adopt p (.starter a)) with hg'
  have hin : ∀ q, g'.inNursery q = g.inNursery q + if p = q then 1 else 0 :=
    Ledger.inNursery_push_adopt (({ g with pendingTaskCount := n }.setStarter a st').setParent p
      (some .nursery)) p (.starter a)
  have hheld : ∀ q, g'.held q = g.held q := fun q => by
    have hpush := Ledger.held_push_adopt (({ g with pendingTaskCount := n }.setStarter a
      st').setParent p (some .nursery)) p (.starter a) q
    exact hpush.trans (g.held_release ha hp hp' q)
  have hpar : ∀ q, q ≠ p → g'.parents q = g.parents q :=
    fun q hne => Function.update_of_ne hne _ _
  have hnew : g'.parents p = some (some .nursery) := Function.update_self _ _ _
  have hlt : p < g.nextId := hi.lt_of_held (by
    have := g.pledged_pos ha hp
    simp only [Ledger.held]
    omega)
  refine ⟨fun q => ?_, fun q h => ?_, hi.duty, fun q b h => ?_, fun q par h hne => ?_⟩
  · rw [hheld]
    exact hi.once q
  · have hle : g.nextId ≤ q := h
    rw [hheld, hpar q (by omega)]
    exact hi.fresh q h
  · have hqp : q ≠ p := fun heq => by
      rw [heq, hnew] at h
      cases h
    rw [hpar q hqp] at h
    obtain ⟨stb, hb, hpb, hnb⟩ := hi.starter q b h
    have hba : b ≠ a := fun heq => by
      rw [heq, ha] at hb
      cases hb
      exact hqp (Option.some.inj (hpb.symm.trans hp))
    refine ⟨stb, ?_, hpb, hnb⟩
    simp [hg', Ledger.setStarter, Ledger.setParent, Ledger.push, AList.lookup_insert_ne hba, hb]
  · rw [hin]
    by_cases hqp : q = p
    · rw [if_pos hqp.symm]
      omega
    · rw [hpar q hqp] at h
      have := hi.linked q par h hne
      omega

/-- A promise that is being adopted is not linked yet. -/
theorem not_linked (hi : Custody g) {p : ℕ} {par : Parent} {cs : List Frame}
    (hcs : g.calls = .adopt p par :: cs) : p ∉ g.tasks := by
  intro hmem
  have hone := hi.once p
  have := List.count_pos_iff.2 hmem
  rw [Ledger.held, Ledger.inNursery, Ledger.adoptions_cons hcs] at hone
  simp only [Frame.adopting, Option.toList_some, List.singleton_append, List.count_cons_self] at hone
  omega

/-- `adopt()` links the promise. -/
theorem adopted (hi : Custody g) {p : ℕ} {par : Parent} {cs : List Frame} (n : UInt32)
    (hcs : g.calls = .adopt p par :: cs) :
    Custody { g with calls := cs, tasks := g.tasks.erase p ++ [p], taskCount := n } := by
  have hin := Ledger.inNursery_adopted n hcs (hi.not_linked hcs)
  refine hi.of_moved rfl (fun q => ?_) (fun _ h => h) (fun _ h => Or.inl h) hi.starter
    fun q par' h hne => ?_
  · rw [Ledger.held, hin]
    rfl
  · rw [hin]
    exact hi.linked q par' h hne

/-- The promise gets the nursery, or its scope, as its parent. -/
theorem setParent (hi : Custody g) {p : ℕ} {par : Option Parent} (hlt : p < g.nextId)
    (hpar : ∀ par', par = some par' → (∀ a, par' ≠ .starter a) ∧ 0 < g.inNursery p) :
    Custody (g.setParent p par) := by
  have hne : ∀ q, q ≠ p → (g.setParent p par).parents q = g.parents q :=
    fun q h => Function.update_of_ne h _ _
  have hself : (g.setParent p par).parents p = some par := Function.update_self _ _ _
  refine ⟨hi.once, fun q h => ⟨(hi.fresh q h).1, ?_⟩, hi.duty, fun q a h => ?_,
    fun q par' h hn => ?_⟩
  · have hle : g.nextId ≤ q := h
    rw [hne q (by omega)]
    exact (hi.fresh q h).2
  · by_cases hq : q = p
    · rw [hq, hself] at h
      exact absurd rfl ((hpar _ (Option.some.inj h)).1 a)
    · exact hi.starter q a (hne q hq ▸ h)
  · by_cases hq : q = p
    · rw [hq, hself] at h
      rw [hq]
      exact (hpar _ (Option.some.inj h)).2
    · exact hi.linked q par' (hne q hq ▸ h) hn

theorem destroy (hi : Custody g) (p : ℕ) : Custody (g.destroy p) := by
  have hne : ∀ q, q ≠ p → (g.destroy p).parents q = g.parents q :=
    fun q h => Function.update_of_ne h _ _
  have hself : (g.destroy p).parents p = none := Function.update_self _ _ _
  have hold : ∀ q par, (g.destroy p).parents q = some par → q ≠ p ∧ g.parents q = some par := by
    intro q par h
    have hq : q ≠ p := fun heq => by
      rw [heq, hself] at h
      cases h
    exact ⟨hq, hne q hq ▸ h⟩
  refine hi.of_moved rfl (g.held_eraseTasks_le p) (fun q h => ?_) (fun _ h => Or.inl h)
    (fun q a h => ?_) fun q par h hn => ?_
  · by_cases hq : q = p
    · rw [hq, hself]
    · rw [hne q hq, h]
  · exact hi.starter q a (hold q _ h).2
  · obtain ⟨hq, hparq⟩ := hold q _ h
    have hin : (g.destroy p).inNursery q = g.inNursery q := by
      rw [Ledger.inNursery, Ledger.inNursery, Ledger.destroy, List.count_erase_of_ne hq]
      rfl
    rw [hin]
    exact hi.linked q par hparq hn

/-- A start awaiter that nothing reports to goes. -/
theorem eraseStarter (hi : Custody g) {a : ℕ} {st : Starter Err}
    (ha : g.starters.lookup a = some st) (hn : st.nursery = false) :
    Custody { g with starters := g.starters.erase a } := by
  refine hi.of_moved rfl (Ledger.held_eraseStarter_le ha) (fun _ h => h) (fun _ h => Or.inl h)
    (fun q b h => ?_) hi.linked
  obtain ⟨stb, hb, hpb, hnb⟩ := hi.starter q b h
  have hba : b ≠ a := fun heq => by
    rw [heq, ha] at hb
    cases hb
    rw [hn] at hnb
    cases hnb
  refine ⟨stb, ?_, hpb, hnb⟩
  rw [lookup_erase_eq, if_neg hba, hb]

theorem finish (hi : Custody g) {p : ℕ} {par par' : Parent} (hp : g.parents p = some (some par')) :
    Custody (g.finish p par) := by
  have hset : Custody (g.setParent p none) := hi.setParent (hi.lt_of_parents hp) (by simp)
  exact hset.push rfl

/-- A task that is done is taken off the list. -/
theorem eraseTask (hi : Custody g) {p : ℕ} (hp : g.parents p = some none) :
    Custody (g.eraseTask p) := by
  refine hi.of_moved rfl (g.held_eraseTasks_le p) (fun _ h => h) (fun cb hcb => ?_) hi.starter
    fun q par h hn => ?_
  · rcases List.mem_append.1 hcb with hcb | hcb
    · exact Or.inl hcb
    · rw [List.mem_singleton.1 hcb]
      refine Or.inr fun q hq => ?_
      cases hq
      exact hi.lt_of_parents hp
  · have hq : q ≠ p := fun heq => by
      have h' : g.parents q = some (some par) := h
      rw [heq, hp] at h'
      cases h'
    have hin : (g.eraseTask p).inNursery q = g.inNursery q := by
      rw [Ledger.inNursery, Ledger.inNursery, Ledger.eraseTask, Ledger.submit,
        List.count_erase_of_ne hq]
      rfl
    rw [hin]
    exact hi.linked q par h hn

theorem closeIfFinished (hi : Custody g) : Custody g.closeIfFinished := by
  unfold Ledger.closeIfFinished
  split_ifs
  · have hset : Custody { g with parent := false, executor := false } :=
      hi.of_same rfl rfl rfl rfl rfl fun _ h => Or.inl h
    exact hset.push rfl
  · exact hi

end Custody

theorem calls_cons {f : Frame} {below : List Frame} (hst : s.stack = f :: below)
    (hf : f.own = true) : s.ledger.calls = f :: below.filter Frame.own := by
  simp [State.ledger, hst, hf]

/-- The step lemma. -/
theorem Custody.entry {a : Action Err} (hi : Custody s.ledger) (hr : Reports s.ledger)
    (hc : Census s) (h : Entry s a g) : Custody g := by
  cases h with
  | openScope | joinEmpty | join | asyncCloseEmpty | closed =>
    exact hi.of_same rfl rfl rfl rfl rfl fun _ h => Or.inl h
  | bodyPromise | start => exact hi.addPromise _
  | bodyDone => exact (hi.push rfl).stores (Ledger.stores_storeInScope _ _)
  | joinClosed | closeEmpty | startCancelHanded | await | resume | cancelRefused
  | ignoreInStarter | run | runSoonReturns => exact hi
  | asyncClose =>
    have hset : Custody { s.ledger with parent := true, joined := true } :=
      hi.of_same rfl rfl rfl rfl rfl fun _ h => Or.inl h
    exact hset.stores (Ledger.stores_cancel _)
  | close => exact hi.submit rfl
  | cancel => exact hi.stores (Ledger.stores_cancel _)
  | startDone => exact hi.stores (Ledger.stores_storeInNursery _ _)
  | newStart =>
    refine hi.newStart ?_ rfl
    cases hlook : s.starters.lookup s.nextId with
    | none => exact hlook
    | some st => exact absurd (hc.fresh _ _ hlook) (lt_irrefl _)
  | startEarlyCancel ha | startCancel ha | startedCancelling ha =>
    exact hi.setStarter ha rfl fun hn p => hi.ne_starter_of_nursery ha hn p
  | startPending ha hp hn => exact hi.startPending ha hp rfl hn
  | handOff ha hp => exact hi.handOff ha hp rfl
  | dropStart ha _ hn => exact (hi.eraseStarter ha hn).destroy _
  | dropStartHanded ha _ hn => exact hi.eraseStarter ha hn
  | awaitCancelled hp | resumeCancelled hp | cancelConfirmed hp =>
    exact (hi.cancelled _).finish ((congrFun (Ledger.parents_cancelled _ _) _).trans hp)
  | storeInNursery => exact hi.stores (Ledger.stores_storeInNursery _ _)
  | storeInScope => exact hi.stores (Ledger.stores_storeInScope _ _)
  | storeInStarter _ ha => exact hi.setStarter ha rfl fun hn p => hi.ne_starter_of_nursery ha hn p
  | finalSuspend hp => exact hi.finish hp
  | cancelTask | resumeParent => exact hi.unqueue _
  | destroyTask => exact (hi.unqueue _).destroy _
  | cancelNursery => exact (hi.unqueue _).stores (Ledger.stores_cancel _)
  | startContinuation hst ha =>
    rename_i b q below st
    have hcalls := calls_cons hst rfl
    have hpop : Custody { s.ledger with calls := below.filter Frame.own } := hi.pop hcalls rfl
    have hset : Custody { s.ledger with
        calls := below.filter Frame.own
        pendingTaskCount := if st.nursery then s.pendingTaskCount - 1 else s.pendingTaskCount } :=
      hpop.of_same rfl rfl rfl rfl rfl fun _ h => Or.inl h
    refine hset.setStarter ha rfl fun _ p hp => ?_
    -- The promise that has reported is the only one that could.
    cases q with
    | none => exact hr.body b (hcalls ▸ List.mem_cons_self)
    | some p' =>
      have hmem : Frame.continuation (.starter b) (some p') ∈ s.ledger.calls :=
        hcalls ▸ List.mem_cons_self
      obtain ⟨st₁, h₁, hp₁, -⟩ := hr.starter b p' hmem
      obtain ⟨st₂, h₂, hp₂, -⟩ := hi.starter p b hp
      rw [h₁] at h₂
      cases h₂
      have heq : p' = p := Option.some.inj (hp₁.symm.trans hp₂)
      have hdone := hr.done _ p' hmem
      rw [heq] at hdone
      exact absurd (hdone.symm.trans hp) (by simp)
  | continuation hst =>
    have hcalls := calls_cons hst rfl
    exact ((hi.pop hcalls rfl).eraseTask (hr.done _ _ (hcalls ▸ List.mem_cons_self))).closeIfFinished
  | continuationBody hst => exact hi.pop (calls_cons hst rfl) rfl
  | continuationLast hst =>
    refine Custody.submit ?_ rfl
    exact (hi.pop (calls_cons hst rfl) rfl).of_same rfl rfl rfl rfl rfl fun _ h => Or.inl h
  | adoptedStarter hst ha => exact (hi.adopted _ (calls_cons hst rfl)).setStarter ha rfl fun hn p => hi.ne_starter_of_nursery ha hn p
  | adopted hst hne =>
    rename_i p par below
    have hcalls := calls_cons hst rfl
    have hheld : 0 < s.ledger.held p := by
      rw [Ledger.held, Ledger.inNursery, Ledger.adoptions_cons hcalls]
      simp only [Frame.adopting, Option.toList_some, List.singleton_append, List.count_cons_self]
      omega
    refine (hi.adopted _ hcalls).setParent (hi.lt_of_held hheld) fun par' hpar => ?_
    cases hpar
    refine ⟨hne, ?_⟩
    simp only [Ledger.inNursery, List.count_append, List.count_cons_self]
    omega
  | submitResume hst =>
    refine Custody.submit ?_ rfl
    exact (hi.pop (calls_cons hst rfl) rfl).of_same rfl rfl rfl rfl rfl fun _ h => Or.inl h

/-- Nobody gets hold of a promise again. -/
theorem held_le_of_entry {a : Action Err} (hi : Custody s.ledger) (hc : Census s)
    (h : Entry s a g) {q : ℕ} (hq : q < s.nextId) : g.held q ≤ s.ledger.held q := by
  have hst : ∀ {g₁ g₂ : Ledger Err}, g₁.Stores g₂ → g₂.held q = g₁.held q := by
    rintro g₁ g₂ ⟨e, c, ps, -, -, rfl⟩
    rfl
  have hcan : ∀ (p : ℕ) (par : Parent),
      ((s.ledger.cancelled par).finish p par).held q = s.ledger.held q := by
    intro p par
    unfold Ledger.cancelled
    split
    · split
      · rename_i ha
        exact Ledger.held_setStarter ha rfl q
      · rfl
    · rfl
  cases h with
  | bodyDone => exact (hst (Ledger.stores_storeInScope _ _)).le
  | storeInScope => exact (hst (Ledger.stores_storeInScope _ _)).le
  | asyncClose | cancel | cancelNursery => exact (hst (Ledger.stores_cancel _)).le
  | startDone | storeInNursery => exact (hst (Ledger.stores_storeInNursery _ _)).le
  | bodyPromise | start => exact (Ledger.held_addPromise_of_lt _ _ hq).le
  | newStart =>
    refine (Ledger.held_newStart ?_ rfl q).le
    cases hlook : s.starters.lookup s.nextId with
    | none => exact hlook
    | some st => exact absurd (hc.fresh _ _ hlook) (lt_irrefl _)
  | startEarlyCancel ha | startCancel ha | startedCancelling ha =>
    refine (Ledger.held_setStarter ha ?_ q).le
    rfl
  | storeInStarter _ ha =>
    refine (Ledger.held_setStarter ha ?_ q).le
    rfl
  | startPending ha hp =>
    rw [Ledger.held_setParent]
    refine le_of_eq_of_le (Ledger.held_pledge (p := s.nextId) ha hp ?_ q) ?_
    · rfl
    · rw [if_neg hq.ne', Nat.add_zero]
      rfl
  | handOff ha hp =>
    rw [Ledger.held_push_adopt, Ledger.held_setParent]
    refine (Ledger.held_release ha hp ?_ q).le
    rfl
  | dropStart ha =>
    exact (Ledger.held_eraseTasks_le _ _ q).trans (Ledger.held_eraseStarter_le ha q)
  | dropStartHanded ha => exact Ledger.held_eraseStarter_le ha q
  | awaitCancelled | resumeCancelled | cancelConfirmed => exact (hcan _ _).le
  | destroyTask => exact Ledger.held_eraseTasks_le s.ledger _ q
  | startContinuation hst ha =>
    have hpop := Ledger.held_pop (calls_cons hst rfl) rfl q
    refine ((Ledger.held_setStarter ha ?_ q).trans hpop).le
    rfl
  | continuation hst =>
    have hpop := Ledger.held_pop (calls_cons hst rfl) rfl q
    have hclose : ∀ g : Ledger Err, g.closeIfFinished.held q = g.held q := fun g => by
      unfold Ledger.closeIfFinished
      split_ifs <;> rfl
    rw [hclose]
    exact (Ledger.held_eraseTasks_le _ _ q).trans hpop.le
  | continuationBody hst => exact (Ledger.held_pop (calls_cons hst rfl) rfl q).le
  | continuationLast hst | submitResume hst =>
    exact (Ledger.held_pop (calls_cons hst rfl) rfl q).le
  | adoptedStarter hst ha =>
    have hcalls := calls_cons hst rfl
    have hin := Ledger.inNursery_adopted (s.taskCount + 1) hcalls (hi.not_linked hcalls) q
    refine le_of_eq_of_le (Ledger.held_setStarter ha ?_ q) ?_
    · rfl
    · exact (congrArg (· + s.ledger.pledged q) hin).le
  | adopted hst =>
    have hcalls := calls_cons hst rfl
    have hin := Ledger.inNursery_adopted (s.taskCount + 1) hcalls (hi.not_linked hcalls) q
    exact (congrArg (· + s.ledger.pledged q) hin).le
  | _ => exact le_rfl

/-! ### Promises that are done -/

/-- No promise has a parent that is about to be called. -/
theorem reports_of_none (hbody : ∀ a, .continuation (.starter a) none ∉ g.calls)
    (h : ∀ f ∈ g.calls, f.called = none) : Reports g := by
  have hnot : ∀ par p, Frame.continuation par (some p) ∉ g.calls := fun par p hmem => by
    have := h _ hmem
    cases this
  exact ⟨hbody, fun par p hf => absurd hf (hnot par p), fun a p hf => absurd hf (hnot _ p),
    fun par p hf => absurd hf (hnot par p)⟩

/-- A promise is done, and its parent is called. -/
theorem reports_finish (hi : Custody g) (hbody : ∀ a, .continuation (.starter a) none ∉ g.calls)
    (h : ∀ f ∈ g.calls, f.called = none) {p : ℕ} {par : Parent}
    (hp : g.parents p = some (some par)) : Reports (g.finish p par) := by
  have hmem : ∀ par' p', Frame.continuation par' (some p') ∈ (g.finish p par).calls →
      par' = par ∧ p' = p := by
    intro par' p' hf
    rcases List.mem_cons.1 hf with hf | hf
    · cases hf
      exact ⟨rfl, rfl⟩
    · have := h _ hf
      cases this
  refine ⟨fun a hf => ?_, fun par' p' hf => ?_, fun a p' hf => ?_, fun par' p' hf hne => ?_⟩
  · rcases List.mem_cons.1 hf with hf | hf
    · cases hf
    · exact hbody a hf
  · obtain ⟨rfl, rfl⟩ := hmem par' p' hf
    exact Function.update_self _ _ _
  · obtain ⟨rfl, rfl⟩ := hmem _ p' hf
    exact hi.starter p' a hp
  · obtain ⟨rfl, rfl⟩ := hmem par' p' hf
    exact hi.linked p' par' hp hne

/-- The step lemma. -/
theorem Reports.step {a : Action Err} (hr : Reports s.ledger) (hi : Custody s.ledger)
    (hp : Prompt s) (h : step s a = .ok t) : Reports t.ledger := by
  have hquiet : ∀ {g : Ledger Err}, a ≠ .next →
      (∀ f ∈ g.calls, f ∈ s.ledger.calls ∨ f.called = none ∧ ∀ b, f ≠ .continuation (.starter b) none) →
      Reports g := by
    intro g ha hg
    refine reports_of_none (fun b hf => ?_) fun f hf => ?_
    · exact (hg _ hf).elim (hr.body b) fun hf => hf.2 b rfl
    · exact (hg f hf).elim (hp.called_eq_none h ha) And.left
  have hpopped : ∀ {g : Ledger Err} {top : Frame} {below : List Frame}, s.stack = top :: below →
      (∀ f ∈ g.calls, f ∈ below.filter Frame.own ∨ f = .runSoon true) → Reports g := by
    intro g top below hst hg
    refine reports_of_none (fun b hf => ?_) fun f hf => ?_
    · rcases hg _ hf with hf | hf
      · exact hr.body b (calls_subset hst hf)
      · cases hf
    · rcases hg f hf with hf | hf
      · exact hp.called_below hst hf
      · rw [hf]
        rfl
  have hfinish : ∀ {g : Ledger Err} {p : ℕ} {par : Parent}, a ≠ .next → Custody g →
      g.calls = s.ledger.calls → g.parents p = some (some par) → Reports (g.finish p par) := by
    intro g p par ha hg hcalls hpar
    refine reports_finish hg (fun b hf => hr.body b (hcalls ▸ hf)) (fun f hf => ?_) hpar
    exact hp.called_eq_none h ha (hcalls ▸ hf)
  have hentry := entry_of_step h
  generalize t.ledger = g at hentry
  cases hentry with
  | bodyDone =>
    obtain ⟨e, c, ps, -, -, hst⟩ := Ledger.stores_storeInScope
      (s.ledger.push (.continuation .scope none)) _
    rw [hst]
    refine hquiet (by simp) fun f hf => ?_
    rcases List.mem_cons.1 hf with rfl | hf
    · exact Or.inr ⟨rfl, by simp⟩
    · exact Or.inl hf
  | asyncClose | cancel | cancelNursery =>
    obtain ⟨e, c, ps, -, -, hst⟩ := Ledger.stores_cancel _
    rw [hst]
    exact hquiet (by simp) fun f hf => Or.inl hf
  | startDone | storeInNursery =>
    obtain ⟨e, c, ps, -, -, hst⟩ := Ledger.stores_storeInNursery _ _
    rw [hst]
    exact hquiet (by simp) fun f hf => Or.inl hf
  | storeInScope =>
    obtain ⟨e, c, ps, -, -, hst⟩ := Ledger.stores_storeInScope s.ledger _
    rw [hst]
    exact hquiet (by simp) fun f hf => Or.inl hf
  | bodyPromise | start | handOff =>
    refine hquiet (by simp) fun f hf => ?_
    rcases List.mem_cons.1 hf with rfl | hf
    · exact Or.inr ⟨rfl, by simp⟩
    · exact Or.inl hf
  | awaitCancelled hpar | resumeCancelled hpar | cancelConfirmed hpar =>
    exact hfinish (by simp) (hi.cancelled _) (Ledger.calls_cancelled _ _)
      ((congrFun (Ledger.parents_cancelled _ _) _).trans hpar)
  | finalSuspend hpar => exact hfinish (by simp) hi rfl hpar
  | closed hst | runSoonReturns hst =>
    refine hpopped hst fun f hf => Or.inl ?_
    simpa [State.ledger, hst, Frame.own] using hf
  | continuation hst =>
    refine hpopped hst fun f hf => ?_
    unfold Ledger.closeIfFinished at hf
    split_ifs at hf
    · exact (List.mem_cons.1 hf).symm
    · exact Or.inl hf
  | startContinuation hst | continuationBody hst | continuationLast hst | adoptedStarter hst
  | adopted hst | submitResume hst => exact hpopped hst fun f hf => Or.inl hf
  | _ => exact hquiet (by simp) fun f hf => Or.inl hf

/-! ### Runs -/

/-- All of this, which holds in every state of every run. -/
structure Books (s : State Err) : Prop where
  prompt : Prompt s
  census : Census s
  custody : Custody s.ledger
  reports : Reports s.ledger

theorem books_init (kind : Kind) : Books (State.init kind : State Err) where
  prompt := by simp [Prompt, State.init]
  census := census_init kind
  custody := ⟨fun p => Nat.zero_le _, fun p _ => ⟨rfl, rfl⟩, by simp [State.ledger, State.init],
    fun p a h => (by cases h), fun p par h => (by cases h)⟩
  reports := reports_of_none (fun a h => by cases h) fun f hf => by cases hf

theorem Books.step {a : Action Err} (hb : Books s) (h : step s a = .ok t) : Books t where
  prompt := hb.prompt.step h
  census := hb.census.step h
  custody := hb.custody.entry hb.reports hb.census (entry_of_step h)
  reports := hb.reports.step hb.custody hb.prompt h

/-- The run lemma. -/
theorem books_of_reach {kind : Kind} {ok : State Err → Action Err → Prop}
    (hr : Reach step ok (.init kind) s) : Books s :=
  hr.invariant (books_init kind) fun _ _ _ hb _ h => hb.step h

end Corral.Nursery
