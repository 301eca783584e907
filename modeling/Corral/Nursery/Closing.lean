import Corral.Nursery.Steps

/-!
# When a nursery closes

A nursery is closed, and the resumption of its parent submitted, by `NurseryBase::continuation()`
when that finds neither tasks nor pending starts.  Two more places take something away without
looking: `NurseryStartAwaiter::continuation()` counts a start that has come to nothing off
`pendingTaskCount_`, and the destructor of a promise unlinks it.  A promise is still linked then if
`adopt()` has cancelled it, and it was done within `cancel()`, before `push_back()`.

* `Frame.attends`: the calls in progress that will add a task or look whether the nursery can be
  closed;
* `Watched`: the condition of the runs in question, the last task or pending start does not go in
  one of these two ways while the nursery has a parent;
* `Inv`: in such a run a nursery with a parent has something left that will close it;
* `closed_when_deserted`: so a nursery with nothing left is closed.
-/

namespace Corral.Nursery

open ActionMachine Registry

variable {Err : Type*} {s t u : State Err}

/-- A call in progress that will add a task, or look whether the nursery can be closed. -/
def Frame.attends : Frame → Bool
  | .body => true
  | .adopt _ _ => true
  | .continuation (.starter _) _ => false
  | .continuation _ _ => true
  | _ => false

/-- Some call in progress will do so. -/
def attended (st : List Frame) : Bool := st.any Frame.attends

theorem attended_append {fs st : List Frame} (h : attended st = true) :
    attended (fs ++ st) = true := by
  simp only [attended, List.any_append, Bool.or_eq_true] at h ⊢
  exact Or.inr h

/-- Neither tasks nor pending starts are left, and nothing is on its way. -/
structure Deserted (s : State Err) : Prop where
  tasks : s.tasks = []
  pending : s.pendingTaskCount = 0
  unattended : attended s.stack = false

instance (s : State Err) : Decidable (Deserted s) :=
  decidable_of_iff (s.tasks = [] ∧ s.pendingTaskCount = 0 ∧ attended s.stack = false)
    ⟨fun ⟨h₁, h₂, h₃⟩ => ⟨h₁, h₂, h₃⟩, fun ⟨h₁, h₂, h₃⟩ => ⟨h₁, h₂, h₃⟩⟩

/-- The nursery has been closed, and the resumption of its parent submitted, or
`continuation()` is about to do so. -/
structure Closed (s : State Err) : Prop where
  executor : s.executor = false
  parent : s.parent = false
  scheduled : s.scheduled = true ∨ Frame.runSoon true ∈ s.stack

/-- The promise that an action destroys. -/
def destroyed (s : State Err) : Action Err → Option ℕ
  | .callback (.destroy p) => some p
  | .dropStart a => (s.starters.lookup a).bind Starter.promise
  | _ => none

/-- An action ends a pending start that has not handed its task over. -/
def abandons (s : State Err) : Action Err → Bool
  | .next => match s.stack with
    | .continuation (.starter a) _ :: _ => ((s.starters.lookup a).map Starter.nursery).getD false
    | _ => false
  | _ => false

/-- While the nursery has a parent, and no call in progress attends to it, neither the last task is
destroyed while it is still linked, nor does the last pending start end without handing its task
over. -/
def Watched (s : State Err) (a : Action Err) : Prop :=
  s.parent = true → attended s.stack = false →
    (abandons s a = true → s.tasks = [] → s.pendingTaskCount ≠ 1) ∧
    (∀ p ∈ destroyed s a, s.tasks = [p] → s.pendingTaskCount ≠ 0)

instance (s : State Err) (a : Action Err) : Decidable (Watched s a) := by
  unfold Watched
  infer_instance

/-- The invariant. -/
structure Inv (s : State Err) : Prop where
  open_ : s.parent = true → ¬ Deserted s
  closed : s.joined = true → s.parent = false → Closed s

/-! ### Steps that leave the nursery as it is -/

/-- Nothing changes for the nursery, but there may be more calls in progress. -/
structure Quiet (s t : State Err) : Prop where
  executor : t.executor = s.executor
  parent : t.parent = s.parent
  joined : t.joined = s.joined
  scheduled : t.scheduled = s.scheduled
  tasks : t.tasks = s.tasks
  pending : t.pendingTaskCount = s.pendingTaskCount
  stack : ∃ fs, t.stack = fs ++ s.stack

theorem Quiet.same (s : State Err) : Quiet s s := ⟨rfl, rfl, rfl, rfl, rfl, rfl, [], rfl⟩

theorem Quiet.trans (h₁ : Quiet s t) (h₂ : Quiet t u) : Quiet s u := by
  obtain ⟨fs₁, hst₁⟩ := h₁.stack
  obtain ⟨fs₂, hst₂⟩ := h₂.stack
  exact ⟨h₂.executor.trans h₁.executor, h₂.parent.trans h₁.parent, h₂.joined.trans h₁.joined,
    h₂.scheduled.trans h₁.scheduled, h₂.tasks.trans h₁.tasks, h₂.pending.trans h₁.pending,
    fs₂ ++ fs₁, by rw [hst₂, hst₁, List.append_assoc]⟩

theorem quiet_enter (s : State Err) (f : Frame) : Quiet s (s.enter f) :=
  ⟨rfl, rfl, rfl, rfl, rfl, rfl, [f], rfl⟩

theorem quiet_setPromise (s : State Err) (p : ℕ) (pr : Promise) : Quiet s (s.setPromise p pr) :=
  ⟨rfl, rfl, rfl, rfl, rfl, rfl, [], rfl⟩

theorem quiet_setStarter (s : State Err) (a : ℕ) (st : Starter Err) : Quiet s (s.setStarter a st) :=
  ⟨rfl, rfl, rfl, rfl, rfl, rfl, [], rfl⟩

theorem quiet_doResume (s : State Err) (p : ℕ) (pr : Promise) : Quiet s (s.doResume p pr) :=
  ⟨rfl, rfl, rfl, rfl, rfl, rfl, [], rfl⟩

theorem quiet_cancelled (s : State Err) (par : Parent) : Quiet s (s.cancelled par) := by
  unfold State.cancelled
  split
  · split
    · exact quiet_setStarter s _ _
    · exact Quiet.same s
  · exact Quiet.same s

theorem quiet_cancelPromise {p : ℕ} (h : s.cancelPromise p = .ok t) : Quiet s t := by
  unfold State.cancelPromise at h
  split at h
  · cases h
  · split_ifs at h <;> cases h
    · exact (quiet_setPromise s _ _).trans (quiet_enter _ _)
    · exact quiet_setPromise s _ _

theorem quiet_propagateCancel {p : ℕ} {pr : Promise} (h : s.propagateCancel p pr = .ok t) :
    Quiet s t := by
  unfold State.propagateCancel at h
  split at h
  · cases h
  · cases h
    exact ((quiet_setPromise s _ _).trans (quiet_cancelled _ _)).trans (quiet_enter _ _)

theorem quiet_doResumeAfterCancel {p : ℕ} {pr : Promise} {mustResume : Bool}
    (h : s.doResumeAfterCancel p pr mustResume = .ok t) : Quiet s t := by
  unfold State.doResumeAfterCancel at h
  split_ifs at h
  · cases h
    exact quiet_doResume s _ _
  · exact quiet_propagateCancel h

theorem quiet_hookAwaitSuspend {p : ℕ} {pr : Promise} {ans : Answers}
    (h : s.hookAwaitSuspend p pr ans = .ok t) : Quiet s t := by
  unfold State.hookAwaitSuspend at h
  simp only at h
  split_ifs at h
  · exact quiet_propagateCancel h
  · exact quiet_doResumeAfterCancel h
  · cases h
    exact quiet_setPromise s _ _
  · cases h
    exact quiet_setPromise s _ _

theorem quiet_doCancel (s : State Err) : Quiet s s.doCancel := by
  unfold State.doCancel
  split_ifs
  · exact Quiet.same s
  · exact ⟨rfl, rfl, rfl, rfl, rfl, rfl, [_], rfl⟩

theorem quiet_cancel (s : State Err) : Quiet s s.cancel := by
  unfold State.cancel
  split_ifs
  · exact Quiet.same s
  · have hset : Quiet s { s with cancelling := true } := ⟨rfl, rfl, rfl, rfl, rfl, rfl, [], rfl⟩
    exact hset.trans (quiet_doCancel _)

theorem quiet_storeError {err : Err} (h : s.storeError err = .ok t) : Quiet s t := by
  have hset : ∀ e : Option Err, Quiet s { s with error := e, cancelling := true } :=
    fun e => ⟨rfl, rfl, rfl, rfl, rfl, rfl, [], rfl⟩
  unfold State.storeError at h
  split at h
  · cases h
  · cases h
    by_cases hc : s.cancelling = true
    · rw [if_pos hc]
      exact hset _
    · rw [if_neg hc]
      exact (hset _).trans (quiet_doCancel _)

theorem quiet_storeInNursery {out : Outcome Err} (h : s.storeInNursery out = .ok t) :
    Quiet s t := by
  unfold State.storeInNursery at h
  split at h
  · exact quiet_storeError h
  · cases h
    exact Quiet.same s

theorem quiet_storeInScope {out : Outcome Err} (h : s.storeInScope out = .ok t) : Quiet s t := by
  cases out with
  | join => cases h; exact Quiet.same s
  | cancel => cases h; exact quiet_cancel s
  | error err => exact quiet_storeError h

theorem quiet_store {par : Parent} {out : Outcome Err} (h : s.store par out = .ok t) :
    Quiet s t := by
  cases par with
  | nursery => exact quiet_storeInNursery h
  | scope => exact quiet_storeInScope h
  | starter a =>
    simp only [State.store, State.storeInStarter] at h
    split at h
    · cases h
    · split at h
      · cases h
        exact quiet_setStarter s _ _
      · split_ifs at h
        cases h
        exact Quiet.same s

theorem quiet_adopt {p : ℕ} {par : Parent} (h : s.adopt p par = .ok t) :
    Quiet (s.enter (.adopt p par)) t := by
  unfold State.adopt at h
  split_ifs at h
  · exact quiet_cancelPromise h
  · cases h
    exact Quiet.same _

theorem quiet_addPromise {par : Parent} (h : s.addPromise par = .ok t) :
    Quiet (s.enter (.adopt s.nextId par)) t := by
  have ha := quiet_adopt h
  exact ⟨ha.executor, ha.parent, ha.joined, ha.scheduled, ha.tasks, ha.pending, ha.stack⟩

theorem Quiet.not_deserted (h : Quiet s t) (hs : ¬ Deserted s) : ¬ Deserted t := by
  rintro ⟨htasks, hpending, hatt⟩
  obtain ⟨fs, hst⟩ := h.stack
  refine hs ⟨h.tasks ▸ htasks, h.pending ▸ hpending, ?_⟩
  by_contra hne
  rw [hst, attended_append (by simpa using hne)] at hatt
  cases hatt

theorem Inv.quiet (hi : Inv s) (h : Quiet s t) : Inv t := by
  refine ⟨fun hp => h.not_deserted (hi.open_ (h.parent ▸ hp)), fun hj hp => ?_⟩
  obtain ⟨he, -, hs⟩ := hi.closed (h.joined ▸ hj) (h.parent ▸ hp)
  obtain ⟨fs, hst⟩ := h.stack
  refine ⟨h.executor.trans he, hp, ?_⟩
  rw [h.scheduled, hst, List.mem_append]
  exact hs.imp id Or.inr

/-! ### The other steps -/

/-- What a step that is not quiet has to be shown to keep. -/
theorem Inv.moved (hi : Inv s) (hopen : t.parent = true → ¬ Deserted t)
    (hclosed : t.joined = true → t.parent = false → s.joined = true ∧ s.parent = false)
    (he : s.executor = false → t.executor = false) (hs : t.scheduled = s.scheduled)
    (hst : Frame.runSoon true ∈ s.stack → Frame.runSoon true ∈ t.stack) : Inv t := by
  refine ⟨hopen, fun hj hp => ?_⟩
  obtain ⟨hj', hp'⟩ := hclosed hj hp
  obtain ⟨hex, -, hsch⟩ := hi.closed hj' hp'
  refine ⟨he hex, hp, ?_⟩
  rw [hs]
  exact hsch.imp id hst

/-- A call that does not attend to the nursery returns. -/
theorem Inv.pop {f : Frame} {below : List Frame} (hi : Inv s) (hst : s.stack = f :: below)
    (hf : f ≠ .runSoon true) (hatt : f.attends = false) : Inv { s with stack := below } := by
  refine hi.moved (fun hp hd => hi.open_ hp ⟨hd.tasks, hd.pending, ?_⟩) (fun hj hp => ⟨hj, hp⟩) id
    rfl fun hmem => ?_
  · rw [hst, attended, List.any_cons, hatt]
    exact hd.unattended
  · rw [hst, List.mem_cons] at hmem
    exact hmem.resolve_left hf.symm

/-- `NurseryBase::continuation()` closes the nursery, or something is left. -/
theorem continuation_cases {p : Option ℕ} (h : s.continuation p = .ok t) :
    t.joined = s.joined ∧
    (Closed t ∨
      t.parent = s.parent ∧ t.executor = s.executor ∧ t.scheduled = s.scheduled ∧
      (∃ fs, t.stack = fs ++ s.stack) ∧
      (t.parent = true → ¬ (t.tasks = [] ∧ t.pendingTaskCount = 0))) := by
  have hq : ∀ s : State Err, s.dropBackref.stack = s.stack ∧ s.dropBackref.parent = s.parent ∧
      s.dropBackref.executor = s.executor ∧ s.dropBackref.joined = s.joined ∧
      s.dropBackref.scheduled = s.scheduled := by
    intro s
    unfold State.dropBackref
    split_ifs <;> exact ⟨rfl, rfl, rfl, rfl, rfl⟩
  obtain ⟨hst, hpar, hex, hj, hsch⟩ := hq s
  unfold State.continuation at h
  simp only at h
  split at h
  · cases h
  · cases hf : (s.dropBackref.eraseTask p).finished with
    | true =>
      rw [hf] at h
      cases p with
      | some p =>
        cases h
        exact ⟨hj, Or.inl ⟨rfl, rfl, Or.inr List.mem_cons_self⟩⟩
      | none =>
        cases h
        exact ⟨hj, Or.inl ⟨rfl, rfl, Or.inl rfl⟩⟩
    | false =>
      rw [hf] at h
      -- The nursery stays open, because it has no parent or something is left.
      have hleft : ∀ v : State Err, v.tasks = (s.dropBackref.eraseTask p).tasks →
          v.pendingTaskCount = (s.dropBackref.eraseTask p).pendingTaskCount →
          v.parent = (s.dropBackref.eraseTask p).parent →
          v.parent = true → ¬ (v.tasks = [] ∧ v.pendingTaskCount = 0) := by
        intro v ht hpend hvp hv ⟨hnil, hzero⟩
        simp only [State.finished, ← ht, ← hpend, ← hvp, hnil, hzero, hv] at hf
        cases hf
      cases p with
      | some p =>
        cases h
        exact ⟨hj, Or.inr ⟨hpar, hex, hsch, ⟨[.runSoon false], by rw [← hst]; rfl⟩,
          hleft _ rfl rfl rfl⟩⟩
      | none =>
        cases h
        exact ⟨hj, Or.inr ⟨hpar, hex, hsch, ⟨[], hst⟩, hleft _ rfl rfl rfl⟩⟩

theorem Inv.continuation {par : Parent} {p : Option ℕ} {below : List Frame} (hi : Inv s)
    (hst : s.stack = .continuation par p :: below)
    (h : { s with stack := below }.continuation p = .ok t) : Inv t := by
  obtain ⟨hj, hc | ⟨hp, he, hs, ⟨fs, hfs⟩, hleft⟩⟩ := continuation_cases h
  · exact ⟨fun hp => absurd (hc.parent ▸ hp) (by decide), fun _ _ => hc⟩
  · refine hi.moved (fun hpar hd => hleft hpar ⟨hd.tasks, hd.pending⟩)
      (fun hjt hpt => ⟨hj ▸ hjt, hp ▸ hpt⟩) (fun hse => he.trans hse) hs fun hmem => ?_
    rw [hst, List.mem_cons] at hmem
    rw [hfs]
    exact List.mem_append_right _ (hmem.resolve_left (by simp))

/-- `runSoon()` returns to `continuation()`, or to where that was called. -/
theorem Inv.runSoonReturns {ret : Bool} {below : List Frame} (hi : Inv s)
    (hst : s.stack = .runSoon ret :: below) : Inv ({ s with stack := below }.submitResume ret) := by
  cases ret with
  | true =>
    refine ⟨fun hp hd => hi.open_ hp ⟨hd.tasks, hd.pending, ?_⟩, fun hj hp => ?_⟩
    · rw [hst]
      exact hd.unattended
    · exact ⟨(hi.closed hj hp).executor, hp, Or.inl rfl⟩
  | false => exact hi.pop hst (by simp) rfl

/-- `adopt()` links the promise. -/
theorem Inv.adopted {p : ℕ} {par : Parent} {below : List Frame} (hi : Inv s)
    (hst : s.stack = .adopt p par :: below)
    (h : { s with stack := below }.adopted p par = .ok t) : Inv t := by
  have hcases : t.tasks ≠ [] ∧ t.parent = s.parent ∧ t.joined = s.joined ∧
      t.executor = s.executor ∧ t.scheduled = s.scheduled ∧ t.stack = below := by
    unfold State.adopted at h
    split at h
    · cases h
    · split at h
      · split at h
        · cases h
          exact ⟨by simp [State.setStarter], rfl, rfl, rfl, rfl, rfl⟩
        · cases h
      · cases h
        exact ⟨by simp [State.doResume, State.setPromise, State.submit], rfl, rfl, rfl, rfl, rfl⟩
  obtain ⟨htasks, hp, hj, he, hs, hstack⟩ := hcases
  refine hi.moved (fun _ hd => htasks hd.tasks) (fun hjt hpt => ⟨hj ▸ hjt, hp ▸ hpt⟩)
    (fun hse => he.trans hse) hs fun hmem => ?_
  rw [hst, List.mem_cons] at hmem
  rw [hstack]
  exact hmem.resolve_left (by simp)

/-- A pending start comes to nothing, but not as the last thing that is left. -/
theorem Inv.startContinuation {a : ℕ} {p : Option ℕ} {below : List Frame} (hi : Inv s)
    (hst : s.stack = .continuation (.starter a) p :: below) (hok : Watched s .next)
    (h : { s with stack := below }.startContinuation a = .ok t) : Inv t := by
  have hpop := hi.pop hst (by simp) rfl
  unfold State.startContinuation at h
  split at h
  · cases h
  · rename_i st hlook
    cases h
    cases hn : st.nursery with
    | false => exact hpop.quiet (quiet_setStarter _ _ _)
    | true =>
      refine hpop.moved (fun hp hd => ?_) (fun hj hp => ⟨hj, hp⟩) id rfl id
      have hun : attended s.stack = false := by rw [hst]; exact hd.unattended
      have hab : abandons s .next = true := by
        simp only [abandons, hst]
        rw [show s.starters.lookup a = some st from hlook]
        exact hn
      -- The condition of the run: it was not the last thing that was left.
      have hne : s.pendingTaskCount ≠ 1 := (hok hp hun).1 hab hd.tasks
      have hzero : s.pendingTaskCount - 1 = 0 := hd.pending
      exact hi.open_ hp ⟨hd.tasks, by omega, hun⟩

/-- A promise is destroyed, but not as the last thing that is left. -/
theorem Inv.destroy {p : ℕ} (hi : Inv s)
    (hok : s.parent = true → attended s.stack = false → s.tasks = [p] → s.pendingTaskCount ≠ 0) :
    Inv (s.destroy p) := by
  refine hi.moved (fun hp hd => ?_) (fun hj hp => ⟨hj, hp⟩) id rfl id
  have htasks : s.tasks.erase p = [] := hd.tasks
  rcases List.erase_eq_nil_iff.1 htasks with hnil | hone
  · exact hi.open_ hp ⟨hnil, hd.pending, hd.unattended⟩
  · exact hok hp hd.unattended hone hd.pending

/-- A parent is set while there are tasks. -/
theorem Inv.setParent (hi : Inv s) (hne : s.tasks ≠ []) :
    Inv { s with parent := true, joined := true } :=
  hi.moved (fun _ hd => hne hd.tasks) (fun _ hp => Bool.noConfusion hp) id rfl id

theorem Inv.setExecutor (hi : Inv s) : Inv { s with executor := false } :=
  hi.moved (fun hp hd => hi.open_ hp ⟨hd.tasks, hd.pending, hd.unattended⟩)
    (fun hj hp => ⟨hj, hp⟩) (fun _ => rfl) rfl id

theorem Inv.next (hi : Inv s) (hok : Watched s .next) (h : s.next = .ok t) : Inv t := by
  unfold State.next at h
  split at h
  · rename_i hst
    exact hi.startContinuation hst hok h
  · rename_i hst
    exact hi.continuation hst h
  · rename_i hst
    exact hi.adopted hst h
  · rename_i hst
    cases h
    exact hi.runSoonReturns hst
  · rename_i hst
    split_ifs at h
    cases h
    exact (hi.pop hst (by simp) rfl).setExecutor
  · cases h

/-- The call on top of the stack returns, and `f` takes its place. -/
theorem Inv.replaceTop {f g : Frame} {below : List Frame} (hi : Inv s) (hst : s.stack = g :: below)
    (hg : g ≠ .runSoon true) (hfg : g.attends = true → f.attends = true) :
    Inv { s with stack := f :: below } := by
  refine hi.moved (fun hp hd => hi.open_ hp ⟨hd.tasks, hd.pending, ?_⟩) (fun hj hp => ⟨hj, hp⟩) id
    rfl fun hmem => ?_
  · have hun := hd.unattended
    rw [hst]
    simp only [attended, List.any_cons, Bool.or_eq_false_iff] at hun ⊢
    refine ⟨?_, hun.2⟩
    by_contra hne
    rw [hfg (by simpa using hne)] at hun
    cases hun.1
  · rw [hst, List.mem_cons] at hmem
    exact List.mem_cons_of_mem _ (hmem.resolve_left hg.symm)

theorem Inv.bodyReturns {m : Made Err} {below : List Frame} (hi : Inv s)
    (hst : s.stack = .body :: below)
    (h : (match m with
      | .promise => { s with stack := below }.addPromise .scope
      | .done out => { s with stack := .continuation .scope none :: below }.storeInScope out) =
        .ok t) : Inv t := by
  cases m with
  | promise =>
    have htop := hi.replaceTop (f := .adopt s.nextId .scope) hst (by simp) fun _ => rfl
    exact htop.quiet (quiet_addPromise h)
  | done out =>
    have htop := hi.replaceTop (f := .continuation .scope none) hst (by simp) fun _ => rfl
    exact htop.quiet (quiet_storeInScope h)

theorem Inv.adding {p : ℕ} {par : Parent} (hi : Inv s) : Inv (s.enter (.adopt p par)) :=
  hi.quiet (quiet_enter s _)

theorem Inv.startSuspend {a : ℕ} {st : Starter Err} {failure : Option Err} (hi : Inv s)
    (h : s.startSuspend a st failure = .ok t) : Inv t := by
  unfold State.startSuspend at h
  split at h
  · cases h
    exact hi.moved (fun _ hd => absurd hd.pending (Nat.succ_ne_zero _)) (fun hj hp => ⟨hj, hp⟩) id
      rfl id
  · split at h <;> cases h

/-- `handOff()`: the start is not pending any more, and `adopt()` is in progress. -/
theorem Inv.markStarted {a p : ℕ} {st : Starter Err} (hi : Inv s)
    (h : s.markStarted a st p = .ok t) : Inv t := by
  unfold State.markStarted at h
  simp only at h
  split at h
  · cases h
    exact hi.quiet (quiet_setStarter s _ _)
  · split at h
    · refine Inv.quiet ?_ (quiet_adopt h)
      exact hi.moved (fun _ hd => absurd hd.unattended (by simp [attended, State.enter,
        Frame.attends])) (fun hj hp => ⟨hj, hp⟩) id rfl (List.mem_cons_of_mem _)
    · cases h

theorem Inv.dropStart {a : ℕ} {st : Starter Err} (hi : Inv s) (hok : Watched s (.dropStart a))
    (hst : s.starters.lookup a = some st) {p : ℕ} (hp : st.promise = some p) :
    Inv ({ s with starters := s.starters.erase a }.destroy p) := by
  have hi' : Inv { s with starters := s.starters.erase a } :=
    hi.quiet ⟨rfl, rfl, rfl, rfl, rfl, rfl, [], rfl⟩
  refine hi'.destroy fun hpar hatt => (hok hpar hatt).2 p ?_
  simp [destroyed, hst, hp]

theorem Inv.execute {cb : Callback} (hi : Inv s) (hok : Watched s (.callback cb))
    (h : { s with queue := s.queue.erase cb }.execute cb = .ok t) : Inv t := by
  have hi' : Inv { s with queue := s.queue.erase cb } :=
    hi.quiet ⟨rfl, rfl, rfl, rfl, rfl, rfl, [], rfl⟩
  cases cb with
  | run p =>
    simp only [State.execute] at h
    split at h
    · cases h
      exact hi'.quiet (quiet_setPromise _ _ _)
    · cases h
  | cancel p => exact hi'.quiet (quiet_cancelPromise h)
  | destroy p =>
    cases h
    exact hi'.destroy fun hpar hatt => (hok hpar hatt).2 p (by simp [destroyed])
  | resumeParent => cases h; exact hi'
  | cancelNursery => cases h; exact hi'.quiet (quiet_cancel _)

theorem Inv.perform {a : Action Err} (hi : Inv s) (hok : Watched s a) (h : s.perform a = .ok t) :
    Inv t := by
  cases performed_of_perform h with
  | openScope hk hj =>
    exact ⟨fun _ hd => absurd hd.unattended (by simp [attended, State.enter, Frame.attends]),
      fun _ hp => Bool.noConfusion hp⟩
  | bodyPromise hst h => exact hi.bodyReturns (m := .promise) hst h
  | @bodyDone _ out _ hst h => exact hi.bodyReturns (m := .done out) hst h
  | joinClosed | resumeNothing | startCancelHanded => exact hi
  | joinEmpty | asyncCloseEmpty => exact hi.setExecutor
  | join _ _ _ hne => exact hi.setParent hne
  | asyncClose _ _ hne => exact (hi.setParent hne).quiet (quiet_cancel _)
  | closeEmpty => exact hi.quiet (quiet_enter s _)
  | close => exact hi.quiet ⟨rfl, rfl, rfl, rfl, rfl, rfl, [_], rfl⟩
  | cancel => exact hi.quiet (quiet_cancel s)
  | startPromise h => exact hi.adding.quiet (quiet_addPromise h)
  | startDone h => exact hi.quiet (quiet_storeInNursery h)
  | newStart => exact hi.quiet ⟨rfl, rfl, rfl, rfl, rfl, rfl, [], rfl⟩
  | startEarlyCancel => exact hi.quiet (quiet_setStarter s _ _)
  | startSuspend ha hp hn h => exact hi.startSuspend h
  | startCancel ha hh hc hp h =>
    exact (hi.quiet (quiet_setStarter s _ _)).quiet (quiet_cancelPromise h)
  | started ha hs hp h => exact hi.markStarted h
  | dropStart ha hh hn hp => exact hi.dropStart hok ha hp
  | dropStartHanded => exact hi.quiet ⟨rfl, rfl, rfl, rfl, rfl, rfl, [], rfl⟩
  | await hp hs h => exact hi.quiet (quiet_hookAwaitSuspend h)
  | resume => exact hi.quiet (quiet_doResume s _ _)
  | resumeAfterCancel hp hs hon h => exact hi.quiet (quiet_doResumeAfterCancel h)
  | cancelConfirmed hst hp hs h =>
    exact (hi.pop hst (by simp) rfl).quiet (quiet_propagateCancel h)
  | cancelRefused hst => exact hi.pop hst (by simp) rfl
  | storeResult hp hs hpar h => exact (hi.quiet (quiet_setPromise s _ _)).quiet (quiet_store h)
  | finalSuspend => exact hi.quiet ((quiet_setPromise s _ _).trans (quiet_enter _ _))
  | callback hcb h => exact hi.execute hok h

/-- The step lemma. -/
theorem Inv.step {a : Action Err} (hi : Inv s) (hok : Watched s a) (h : step s a = .ok t) :
    Inv t := by
  unfold Nursery.step at h
  split at h
  · exact hi.next hok h
  · split_ifs at h
    exact hi.perform hok h

/-- The run lemma. -/
theorem inv_of_reach {kind : Kind} (hr : Reach step Watched (.init kind : State Err) s) :
    Inv s := by
  refine hr.invariant ⟨fun hp => Bool.noConfusion hp, fun hj => Bool.noConfusion hj⟩ ?_
  exact fun _ _ _ hi hok h => hi.step hok h

/-! ### The result -/

/-- What the end of a pending start does to the nursery. -/
theorem abandons_step {a : Action Err} (hab : abandons s a = true) (h : step s a = .ok t) :
    t.parent = s.parent ∧ t.tasks = s.tasks ∧ t.pendingTaskCount = s.pendingTaskCount - 1 ∧
    attended t.stack = attended s.stack := by
  unfold abandons at hab
  split at hab
  · split at hab
    · rename_i c q below hst
      have hstep : { s with stack := below }.startContinuation c = .ok t := by
        simpa only [step, State.next, hst] using h
      unfold State.startContinuation at hstep
      split at hstep
      · cases hstep
      · rename_i st hlook
        have hn : st.nursery = true := by
          rw [show s.starters.lookup c = some st from hlook] at hab
          exact hab
        rw [if_pos hn] at hstep
        cases hstep
        exact ⟨rfl, rfl, rfl, by rw [hst]; rfl⟩
    · cases hab
  · cases hab

/-- What the destruction of a promise does to the nursery. -/
theorem destroyed_step {a : Action Err} {p : ℕ} (hdes : destroyed s a = some p)
    (h : step s a = .ok t) :
    t.parent = s.parent ∧ t.tasks = s.tasks.erase p ∧
    t.pendingTaskCount = s.pendingTaskCount ∧ t.stack = s.stack := by
  unfold destroyed at hdes
  split at hdes
  · cases hdes
    simp only [step, State.perform, State.execute] at h
    split_ifs at h
    cases h
    exact ⟨rfl, rfl, rfl, rfl⟩
  · simp only [step, State.perform] at h
    split_ifs at h
    split at h
    · rename_i st hst
      have hp : st.promise = some p := by simpa [hst] using hdes
      simp only [hp] at h
      split_ifs at h
      cases h
      exact ⟨rfl, rfl, rfl, rfl⟩
    · cases h
  · cases hdes

/-- A step that is not watched leaves the nursery open, with nothing left. -/
theorem deserted_of_not_watched {a : Action Err} (hok : ¬ Watched s a) (h : step s a = .ok t) :
    t.parent = true ∧ Deserted t := by
  simp only [Watched, not_forall, not_and_or, Decidable.not_not] at hok
  obtain ⟨hp, hatt, ⟨hab, hnil, hone⟩ | ⟨p, hdes, hlast, hzero⟩⟩ := hok
  · obtain ⟨hpar, htasks, hpend, hst⟩ := abandons_step hab h
    exact ⟨hpar.trans hp, htasks.trans hnil, by rw [hpend, hone], hst.trans hatt⟩
  · obtain ⟨hpar, htasks, hpend, hst⟩ := destroyed_step hdes h
    exact ⟨hpar.trans hp, by rw [htasks, hlast, List.erase_cons_head], hpend.trans hzero,
      hst ▸ hatt⟩

/-- In every watched run, a nursery that has had a parent, and has neither tasks nor pending starts
left nor is anything on its way, has been closed, and the resumption of its parent has been
submitted.  The first step that is not watched leaves it open with nothing left to close it. -/
theorem closed_when_deserted {kind : Kind}
    (hr : Reach step Watched (.init kind : State Err) s) :
    (s.joined = true → Deserted s → Closed s) ∧
    ∀ a t, ¬ Watched s a → step s a = .ok t → t.parent = true ∧ Deserted t := by
  have hi := inv_of_reach hr
  refine ⟨fun hj hd => hi.closed hj ?_, fun a t hok h => deserted_of_not_watched hok h⟩
  by_contra hp
  exact hi.open_ (by simpa using hp) hd

/-- The body of a scoped nursery is its only task, and returns. -/
def bodyOnly : List (Action ℕ) :=
  [.openScope, .bodyReturns .promise, .next, .callback (.run 0), .storeResult 0 .join,
    .finalSuspend 0, .next, .next, .next, .callback (.destroy 0), .callback .resumeParent]

theorem closed_when_deserted_bodyOnly :
    ∃ s, exec step (.init .scope : State ℕ) bodyOnly = .ok s ∧ s.joined = true ∧ Deserted s ∧
      Closed s := by
  have hm : Meets step Watched (.init .scope : State ℕ) bodyOnly := by decide
  have hrun : ∃ s, exec step (.init .scope : State ℕ) bodyOnly = .ok s ∧ s.joined = true ∧
      Deserted s := ⟨_, rfl, rfl, by decide⟩
  obtain ⟨s, he, hj, hd⟩ := hrun
  exact ⟨s, he, hj, hd, (closed_when_deserted (reach_of_exec hm he)).1 hj hd⟩

/-- An awaiter that is not ready and cannot be cancelled early. -/
def notReady : Answers := ⟨false, false, false⟩

/-- A task outside a scoped nursery awaits `start()` while the body is suspended.  The started task
suspends before it calls `started()`, the body returns, and then the started task fails. -/
def startFails : List (Action ℕ) :=
  [.openScope, .bodyReturns .promise, .next, .callback (.run 0), .await 0 notReady, .newStart,
    .startSuspend 1 none, .resume 0 false, .callback (.run 2), .await 2 notReady,
    .callback (.run 0), .storeResult 0 .join, .finalSuspend 0, .next, .next,
    .callback (.destroy 0), .resume 2 false, .callback (.run 2), .storeResult 2 (.error 7),
    .finalSuspend 2, .next]

/-- So a nursery can be left open with nothing left to close it. -/
theorem not_closed_when_deserted :
    ¬ ∀ (kind : Kind) (s : State ℕ), Reach step anyAction (.init kind) s → s.joined = true →
      Deserted s → Closed s := by
  intro h
  have hrun : ∃ s, exec step (.init .scope : State ℕ) startFails = .ok s ∧ s.joined = true ∧
      s.parent = true ∧ Deserted s := ⟨_, rfl, rfl, rfl, by decide⟩
  obtain ⟨s, he, hj, hp, hd⟩ := hrun
  have hc := (h .scope s (reach_of_run he) hj hd).parent
  rw [hp] at hc
  cases hc

/-- A task outside a scoped nursery awaits `start()`.  The nursery is cancelled, `started()` is
called while the started task is suspended, and the task confirms its cancellation within
`adopt()`; then the body confirms its own. -/
def cancelledInAdopt : List (Action ℕ) :=
  [.openScope, .bodyReturns .promise, .next, .callback (.run 0), .await 0 notReady, .newStart,
    .startSuspend 1 none, .callback (.run 2), .await 2 notReady, .cancel,
    .callback (.cancel 0), .cancelReturns false, .next, .started 1, .cancelReturns true, .next,
    .next, .next, .resume 0 false, .next, .next, .callback (.destroy 2)]

/-- The other way: the last task is destroyed while it is still linked. -/
example : ∃ s, exec step (.init .scope : State ℕ) cancelledInAdopt = .ok s ∧ s.parent = true ∧
    s.queue = [.destroy 0] ∧ Deserted s := ⟨_, rfl, rfl, rfl, by decide⟩

end Corral.Nursery
