import Corral.Nursery.Steps

/-!
# What a step does to a nursery

The ledger of a nursery is what the nursery and its start awaiters know, without the progress of
the tasks: the counters and flags, the list of tasks, the parents of the promises, the start
awaiters, the callbacks other than the resumption of a task, and the calls of the nursery's own code
that are in progress.

* `State.ledger`: the ledger of a state, with one lemma for each function of the model;
* `Entry s a g`: the ledger can be `g` after the action `a` in the state `s`;
* `entry_of_step`: every step makes such an entry.  All that is proved about whole runs of a nursery
  from here on is proved for the entries.
-/

namespace Corral.Nursery

open Registry

variable {Err : Type*} {s t : State Err}

/-- Calls that the nursery's own code is going to continue. -/
def Frame.own : Frame → Bool
  | .continuation _ _ => true
  | .adopt _ _ => true
  | .runSoon ret => ret
  | _ => false

/-- Everything that waits in an executor but the resumption of a task. -/
def Callback.duty : Callback → Bool
  | .run _ => false
  | _ => true

/-- What the nursery and the start awaiters know. -/
structure Ledger (Err : Type*) where
  executor : Bool
  cancelling : Bool
  tasks : List ℕ
  taskCount : UInt32
  pendingTaskCount : ℕ
  parent : Bool
  error : Option Err
  starters : Reg ℕ (Starter Err)
  nextId : ℕ
  joined : Bool
  scheduled : Bool
  parents : ℕ → Option (Option Parent)
  duties : List Callback
  calls : List Frame

def State.ledger (s : State Err) : Ledger Err where
  executor := s.executor
  cancelling := s.cancelling
  tasks := s.tasks
  taskCount := s.taskCount
  pendingTaskCount := s.pendingTaskCount
  parent := s.parent
  error := s.error
  starters := s.starters
  nextId := s.nextId
  joined := s.joined
  scheduled := s.scheduled
  parents := fun p => (s.promises.lookup p).map Promise.parent
  duties := s.queue.filter Callback.duty
  calls := s.stack.filter Frame.own

namespace Ledger

variable (g : Ledger Err)

def push (f : Frame) : Ledger Err := { g with calls := f :: g.calls }

def submit (cb : Callback) : Ledger Err := { g with duties := g.duties ++ [cb] }

def setParent (p : ℕ) (par : Option Parent) : Ledger Err :=
  { g with parents := Function.update g.parents p (some par) }

def setStarter (a : ℕ) (st : Starter Err) : Ledger Err :=
  { g with starters := g.starters.insert a st }

/-- `NurseryBase::cancel()`. -/
def cancel : Ledger Err :=
  if g.cancelling then g
  else { g with
    cancelling := true
    duties := g.duties ++ if g.executor then g.tasks.map Callback.cancel else [] }

/-- `BasicNursery::storeError()`. -/
def storeError (err : Err) : Ledger Err := { g with error := g.error.or (some err) }.cancel

/-- What a task stores in the nursery. -/
def storeInNursery : Outcome Err → Ledger Err
  | .error err => g.storeError err
  | _ => g

/-- What the body stores in the nursery. -/
def storeInScope : Outcome Err → Ledger Err
  | .error err => g.storeError err
  | .cancel => g.cancel
  | .join => g

/-- `NurseryBase::addPromise()`, up to `push_back()`. -/
def addPromise (par : Parent) : Ledger Err :=
  { g.setParent g.nextId none with nextId := g.nextId + 1 }.push (.adopt g.nextId par)

/-- `BasePromise::destroy()`. -/
def destroy (p : ℕ) : Ledger Err :=
  { g with parents := Function.update g.parents p none, tasks := g.tasks.erase p }

/-- `BaseTaskParent::cancelled()`. -/
def cancelled : Parent → Ledger Err
  | .starter a => match g.starters.lookup a with
    | some st => g.setStarter a { st with result := .cancelled }
    | none => g
  | _ => g

/-- The promise is done, and `continuation()` of its parent is called. -/
def finish (p : ℕ) (par : Parent) : Ledger Err :=
  (g.setParent p none).push (.continuation par (some p))

/-- A task that is done is taken off the list, and its destruction is submitted. -/
def eraseTask (p : ℕ) : Ledger Err :=
  { g with tasks := g.tasks.erase p, taskCount := g.taskCount - 1 }.submit (.destroy p)

/-- The nursery can be closed. -/
def finished : Bool := g.tasks.isEmpty && g.pendingTaskCount == 0 && g.parent

/-- The nursery is closed if it can be; the resumption of the parent is submitted next. -/
def closeIfFinished : Ledger Err :=
  if g.finished then { g with parent := false, executor := false }.push (.runSoon true) else g

/-- What failures and cancellations of the nursery change. -/
def Stores (g' : Ledger Err) : Prop :=
  ∃ e c, ∃ ps ⊆ g.tasks, (g.cancelling = true → c = true) ∧ g' = { g with
    error := e
    cancelling := c
    duties := g.duties ++ ps.map Callback.cancel }

theorem stores_self : g.Stores g := ⟨g.error, g.cancelling, [], by simp, id, by simp⟩

theorem stores_cancel : g.Stores g.cancel := by
  unfold cancel
  split_ifs
  · exact g.stores_self
  · exact ⟨g.error, true, g.tasks, List.Subset.refl _, fun _ => rfl, rfl⟩
  · exact ⟨g.error, true, [], by simp, fun _ => rfl, by simp⟩

theorem stores_storeError (err : Err) : g.Stores (g.storeError err) := by
  obtain ⟨e, c, ps, hps, hc, h⟩ := stores_cancel { g with error := g.error.or (some err) }
  exact ⟨e, c, ps, hps, hc, h⟩

theorem stores_storeInNursery (out : Outcome Err) : g.Stores (g.storeInNursery out) := by
  cases out with
  | error err => exact g.stores_storeError err
  | join | cancel => exact g.stores_self

theorem stores_storeInScope (out : Outcome Err) : g.Stores (g.storeInScope out) := by
  cases out with
  | error err => exact g.stores_storeError err
  | cancel => exact g.stores_cancel
  | join => exact g.stores_self

theorem exists_cancelled (par : Parent) : ∃ sts, g.cancelled par = { g with starters := sts } := by
  cases par with
  | starter a =>
    simp only [cancelled]
    split
    · exact ⟨_, rfl⟩
    · exact ⟨g.starters, rfl⟩
  | nursery | scope => exact ⟨g.starters, rfl⟩

theorem parents_setParent (p : ℕ) (par : Option Parent) (q : ℕ) :
    (g.setParent p par).parents q = if q = p then some par else g.parents q :=
  Function.update_apply _ _ _ _

theorem parents_addPromise (par : Parent) (q : ℕ) :
    (g.addPromise par).parents q = if q = g.nextId then some none else g.parents q :=
  Function.update_apply _ _ _ _

theorem parents_destroy (p q : ℕ) :
    (g.destroy p).parents q = if q = p then none else g.parents q :=
  Function.update_apply _ _ _ _

theorem parents_finish (p : ℕ) (par : Parent) (q : ℕ) :
    (g.finish p par).parents q = if q = p then some none else g.parents q :=
  Function.update_apply _ _ _ _

@[simp] theorem parents_cancelled (par : Parent) : (g.cancelled par).parents = g.parents := by
  obtain ⟨sts, h⟩ := g.exists_cancelled par
  rw [h]

@[simp] theorem calls_cancelled (par : Parent) : (g.cancelled par).calls = g.calls := by
  obtain ⟨sts, h⟩ := g.exists_cancelled par
  rw [h]

end Ledger

/-- The calls below the one on top are among the calls in progress. -/
theorem calls_subset {f : Frame} {below : List Frame} (hst : s.stack = f :: below) :
    below.filter Frame.own ⊆ s.ledger.calls := by
  intro x hx
  simp only [State.ledger, hst, List.mem_filter, List.mem_cons] at hx ⊢
  exact ⟨Or.inr hx.1, hx.2⟩

/-! ### The ledger after each function -/

theorem ledger_enter (s : State Err) {f : Frame} (hf : f.own = true) :
    (s.enter f).ledger = s.ledger.push f := by
  simp [State.ledger, State.enter, Ledger.push, hf]

theorem ledger_enter_other (s : State Err) {f : Frame} (hf : f.own = false) :
    (s.enter f).ledger = s.ledger := by
  simp [State.ledger, State.enter, hf]

theorem ledger_pop_other {f : Frame} {below : List Frame} (hst : s.stack = f :: below)
    (hf : f.own = false) : { s with stack := below }.ledger = s.ledger := by
  simp [State.ledger, hst, hf]

theorem ledger_submit (s : State Err) {cb : Callback} (hcb : cb.duty = true) :
    (s.submit cb).ledger = s.ledger.submit cb := by
  simp [State.ledger, State.submit, Ledger.submit, hcb]

theorem ledger_setPromise (s : State Err) (p : ℕ) (pr : Promise) :
    (s.setPromise p pr).ledger = s.ledger.setParent p pr.parent := by
  simp only [State.ledger, State.setPromise, Ledger.setParent, Ledger.mk.injEq, true_and, and_true]
  funext q
  rw [lookup_insert_eq, Function.update_apply]
  split_ifs <;> rfl

/-- Only the progress of the task changes. -/
theorem ledger_setPromise_same {p : ℕ} {pr pr' : Promise} (hp : s.promises.lookup p = some pr)
    (hpar : pr'.parent = pr.parent) : (s.setPromise p pr').ledger = s.ledger := by
  rw [ledger_setPromise, hpar]
  have hself : s.ledger.parents p = some pr.parent := by simp [State.ledger, hp]
  rw [Ledger.setParent, ← hself, Function.update_eq_self]

theorem ledger_setStarter (s : State Err) (a : ℕ) (st : Starter Err) :
    (s.setStarter a st).ledger = s.ledger.setStarter a st := rfl

theorem ledger_doResume (s : State Err) (p : ℕ) (pr : Promise) :
    (s.doResume p pr).ledger = s.ledger.setParent p pr.parent := by
  rw [← ledger_setPromise s p { pr with status := .ready, onResume := .doNothing }]
  simp [State.doResume, State.ledger, State.submit, Callback.duty]

theorem ledger_doResume_same {p : ℕ} {pr pr' : Promise} (hp : s.promises.lookup p = some pr)
    (hpar : pr'.parent = pr.parent) : (s.doResume p pr').ledger = s.ledger := by
  rw [ledger_doResume, ← ledger_setPromise, ledger_setPromise_same hp hpar]

theorem ledger_destroy (s : State Err) (p : ℕ) : (s.destroy p).ledger = s.ledger.destroy p := by
  simp only [State.ledger, State.destroy, Ledger.destroy, Ledger.mk.injEq, true_and, and_true]
  funext q
  rw [lookup_erase_eq, Function.update_apply]
  split_ifs <;> rfl

theorem ledger_cancelled (s : State Err) (par : Parent) :
    (s.cancelled par).ledger = s.ledger.cancelled par := by
  cases par with
  | starter a =>
    simp only [State.cancelled, Ledger.cancelled]
    split <;> rename_i h <;> simp [State.ledger, State.setStarter, Ledger.setStarter, h]
  | nursery | scope => rfl

theorem ledger_cancel (s : State Err) : s.cancel.ledger = s.ledger.cancel := by
  unfold State.cancel Ledger.cancel State.doCancel
  cases hc : s.cancelling <;> cases he : s.executor <;> cases ht : s.tasks <;>
    simp [State.ledger, State.enter, Frame.own, Callback.duty, hc, he, ht,
      List.filter_append]

/-- `storeError()` stores the error, and cancels the nursery as `cancel()` does. -/
theorem storeError_eq {err : Err} (h : s.storeError err = .ok t) :
    s.parent = true ∧ t = { s with error := s.error.or (some err) }.cancel := by
  unfold State.storeError at h
  split at h
  · cases h
  · rename_i hpar
    have herr : (if s.error.isSome then s.error else some err) = s.error.or (some err) := by
      cases s.error <;> rfl
    rw [herr] at h
    cases h
    refine ⟨by simpa using hpar, ?_⟩
    cases s.cancelling <;> simp [State.cancel]

theorem ledger_storeError {err : Err} (h : s.storeError err = .ok t) :
    t.ledger = s.ledger.storeError err := by
  rw [(storeError_eq h).2]
  exact ledger_cancel _

theorem ledger_storeInNursery {out : Outcome Err} (h : s.storeInNursery out = .ok t) :
    t.ledger = s.ledger.storeInNursery out := by
  cases out with
  | error err => exact ledger_storeError h
  | join | cancel => cases h; rfl

theorem ledger_storeInScope {out : Outcome Err} (h : s.storeInScope out = .ok t) :
    t.ledger = s.ledger.storeInScope out := by
  cases out with
  | error err => exact ledger_storeError h
  | join => cases h; rfl
  | cancel => cases h; exact ledger_cancel s

theorem ledger_cancelPromise {p : ℕ} (h : s.cancelPromise p = .ok t) :
    t.ledger = s.ledger ∧ (s.ledger.parents p).isSome = true := by
  unfold State.cancelPromise at h
  split at h
  · cases h
  · rename_i pr hp
    refine ⟨?_, by simp [State.ledger, hp]⟩
    split_ifs at h <;> cases h
    · rw [ledger_enter_other _ rfl]
      exact ledger_setPromise_same hp rfl
    · exact ledger_setPromise_same hp rfl

theorem ledger_propagateCancel {p : ℕ} {pr : Promise} (h : s.propagateCancel p pr = .ok t) :
    ∃ par, pr.parent = some par ∧ t.ledger = (s.ledger.cancelled par).finish p par := by
  unfold State.propagateCancel at h
  split at h
  · cases h
  · rename_i par hpar
    cases h
    refine ⟨par, hpar, ?_⟩
    rw [ledger_enter _ rfl, ledger_cancelled, ledger_setPromise]
    cases par with
    | starter a =>
      simp only [Ledger.cancelled, Ledger.setParent, Ledger.finish]
      split <;> rfl
    | nursery | scope => rfl

/-- What comes of a co_await by a task with a pending cancellation, or of the resumption of one. -/
theorem ledger_doResumeAfterCancel {p : ℕ} {pr pr' : Promise} {mustResume : Bool}
    (hp : s.promises.lookup p = some pr) (hpar : pr'.parent = pr.parent)
    (h : s.doResumeAfterCancel p pr' mustResume = .ok t) :
    t.ledger = s.ledger ∨
    ∃ par, pr.parent = some par ∧ t.ledger = (s.ledger.cancelled par).finish p par := by
  unfold State.doResumeAfterCancel at h
  split_ifs at h
  · cases h
    exact Or.inl (ledger_doResume_same hp hpar)
  · obtain ⟨par, hpar', ht⟩ := ledger_propagateCancel h
    exact Or.inr ⟨par, hpar ▸ hpar', ht⟩

theorem ledger_hookAwaitSuspend {p : ℕ} {pr : Promise} {ans : Answers}
    (hp : s.promises.lookup p = some pr) (h : s.hookAwaitSuspend p pr ans = .ok t) :
    t.ledger = s.ledger ∨
    ∃ par, pr.parent = some par ∧ t.ledger = (s.ledger.cancelled par).finish p par := by
  unfold State.hookAwaitSuspend at h
  simp only at h
  split_ifs at h
  · obtain ⟨par, hpar, ht⟩ := ledger_propagateCancel h
    exact Or.inr ⟨par, hpar, ht⟩
  · refine ledger_doResumeAfterCancel hp ?_ h
    rfl
  · cases h
    exact Or.inl (ledger_setPromise_same hp rfl)
  · cases h
    exact Or.inl (ledger_setPromise_same hp rfl)

theorem ledger_adopt {p : ℕ} {par : Parent} (h : s.adopt p par = .ok t) :
    s.executor = true ∧ t.ledger = s.ledger.push (.adopt p par) := by
  unfold State.adopt at h
  split_ifs at h with he
  · refine ⟨by simpa using he, ?_⟩
    rw [(ledger_cancelPromise h).1, ledger_enter _ rfl]
  · cases h
    exact ⟨by simpa using he, ledger_enter _ rfl⟩

theorem ledger_addPromise {par : Parent} (h : s.addPromise par = .ok t) :
    s.executor = true ∧ t.ledger = s.ledger.addPromise par := by
  obtain ⟨he, ht⟩ := ledger_adopt h
  have hset := ledger_setPromise s s.nextId ⟨none, .ready, false, .doNothing⟩
  exact ⟨he, ht.trans (congrArg (fun g : Ledger Err =>
    { g with nextId := s.nextId + 1 }.push (.adopt s.nextId par)) hset)⟩

/-! ### Entries -/

/-- What an action can make of the ledger. -/
inductive Entry (s : State Err) : Action Err → Ledger Err → Prop
  | openScope : s.joined = false →
      Entry s .openScope { s.ledger with executor := true, parent := true, joined := true }
  | bodyPromise : s.executor = true → Entry s (.bodyReturns .promise) (s.ledger.addPromise .scope)
  | bodyDone {out : Outcome Err} :
      Entry s (.bodyReturns (.done out))
        ((s.ledger.push (.continuation .scope none)).storeInScope out)
  | joinClosed : s.executor = false → Entry s .join s.ledger
  | joinEmpty : s.executor = true → s.tasks = [] → Entry s .join { s.ledger with executor := false }
  | join : s.executor = true → s.tasks ≠ [] →
      Entry s .join { s.ledger with parent := true, joined := true }
  | asyncCloseEmpty : s.tasks = [] → Entry s .asyncClose { s.ledger with executor := false }
  | asyncClose : s.tasks ≠ [] →
      Entry s .asyncClose { s.ledger with parent := true, joined := true }.cancel
  | closeEmpty : s.tasks = [] → Entry s .close s.ledger
  | close : s.tasks ≠ [] → Entry s .close (s.ledger.submit .cancelNursery)
  | closed {below : List Frame} : s.stack = .closing :: below → s.tasks = [] →
      Entry s .next { s.ledger with executor := false }
  | cancel : Entry s .cancel s.ledger.cancel
  | start : s.executor = true → Entry s (.start .promise) (s.ledger.addPromise .nursery)
  | startDone {out : Outcome Err} : Entry s (.start (.done out)) (s.ledger.storeInNursery out)
  | newStart :
      Entry s .newStart ({ s.ledger with nextId := s.nextId + 1 }.setStarter s.nextId
        ⟨true, none, false, false, .incomplete, true⟩)
  | startEarlyCancel {a : ℕ} {st : Starter Err} : s.starters.lookup a = some st →
      st.promise = none → st.nursery = true →
      Entry s (.startEarlyCancel a) (s.ledger.setStarter a { st with cancelling := true })
  | startPending {a : ℕ} {st : Starter Err} : s.starters.lookup a = some st →
      st.promise = none → st.nursery = true →
      Entry s (.startSuspend a none) (({ s.ledger with
        pendingTaskCount := s.pendingTaskCount + 1
        nextId := s.nextId + 1 }.setStarter a { st with
          promise := some s.nextId, handle := true }).setParent s.nextId (some (.starter a)))
  | startCancel {a p : ℕ} {st : Starter Err} : s.starters.lookup a = some st →
      st.promise = some p → st.handle = true → st.cancelling = false →
      Entry s (.startCancel a) (s.ledger.setStarter a { st with cancelling := true })
  | startCancelHanded {a : ℕ} {st : Starter Err} : s.starters.lookup a = some st →
      st.promise = none → st.handle = true → st.cancelling = false →
      Entry s (.startCancel a) s.ledger
  | startedCancelling {a p : ℕ} {st : Starter Err} : s.starters.lookup a = some st →
      st.promise = some p → st.cancelling = true →
      Entry s (.started a) (s.ledger.setStarter a { st with result := .value, sink := false })
  | handOff {a p : ℕ} {st : Starter Err} : s.starters.lookup a = some st → st.promise = some p →
      st.cancelling = false → st.nursery = true → (s.ledger.parents p).isSome = true →
      s.executor = true →
      Entry s (.started a) ((({ s.ledger with
        pendingTaskCount := s.pendingTaskCount - 1 }.setStarter a { st with
          result := .value, sink := false, nursery := false, promise := none }).setParent p
            (some .nursery)).push (.adopt p (.starter a)))
  | dropStart {a p : ℕ} {st : Starter Err} : s.starters.lookup a = some st → st.handle = false →
      st.nursery = false → st.promise = some p →
      Entry s (.dropStart a) ({ s.ledger with starters := s.starters.erase a }.destroy p)
  | dropStartHanded {a : ℕ} {st : Starter Err} : s.starters.lookup a = some st →
      st.handle = false → st.nursery = false → st.promise = none →
      Entry s (.dropStart a) { s.ledger with starters := s.starters.erase a }
  | await {p : ℕ} {ans : Answers} : Entry s (.await p ans) s.ledger
  | awaitCancelled {p : ℕ} {ans : Answers} {par : Parent} :
      s.ledger.parents p = some (some par) →
      Entry s (.await p ans) ((s.ledger.cancelled par).finish p par)
  | resume {p : ℕ} {mustResume : Bool} : Entry s (.resume p mustResume) s.ledger
  | resumeCancelled {p : ℕ} {mustResume : Bool} {par : Parent} :
      s.ledger.parents p = some (some par) →
      Entry s (.resume p mustResume) ((s.ledger.cancelled par).finish p par)
  | cancelRefused : Entry s (.cancelReturns false) s.ledger
  | cancelConfirmed {p : ℕ} {par : Parent} : s.ledger.parents p = some (some par) →
      Entry s (.cancelReturns true) ((s.ledger.cancelled par).finish p par)
  | storeInNursery {p : ℕ} {out : Outcome Err} : s.ledger.parents p = some (some .nursery) →
      Entry s (.storeResult p out) (s.ledger.storeInNursery out)
  | storeInScope {p : ℕ} {out : Outcome Err} : s.ledger.parents p = some (some .scope) →
      Entry s (.storeResult p out) (s.ledger.storeInScope out)
  | storeInStarter {p a : ℕ} {st : Starter Err} {err : Err} :
      s.ledger.parents p = some (some (.starter a)) → s.starters.lookup a = some st →
      Entry s (.storeResult p (.error err)) (s.ledger.setStarter a { st with result := .error err })
  | ignoreInStarter {p a : ℕ} {out : Outcome Err} :
      s.ledger.parents p = some (some (.starter a)) → (∀ err, out ≠ .error err) →
      Entry s (.storeResult p out) s.ledger
  | finalSuspend {p : ℕ} {par : Parent} : s.ledger.parents p = some (some par) →
      Entry s (.finalSuspend p) (s.ledger.finish p par)
  | run {p : ℕ} : Entry s (.callback (.run p)) s.ledger
  | cancelTask {p : ℕ} : .cancel p ∈ s.queue → (s.ledger.parents p).isSome = true →
      Entry s (.callback (.cancel p))
        { s.ledger with duties := s.ledger.duties.erase (.cancel p) }
  | destroyTask {p : ℕ} : .destroy p ∈ s.queue →
      Entry s (.callback (.destroy p))
        ({ s.ledger with duties := s.ledger.duties.erase (.destroy p) }.destroy p)
  | resumeParent : .resumeParent ∈ s.queue →
      Entry s (.callback .resumeParent)
        { s.ledger with duties := s.ledger.duties.erase .resumeParent }
  | cancelNursery : .cancelNursery ∈ s.queue →
      Entry s (.callback .cancelNursery)
        { s.ledger with duties := s.ledger.duties.erase .cancelNursery }.cancel
  | startContinuation {a : ℕ} {q : Option ℕ} {below : List Frame} {st : Starter Err} :
      s.stack = .continuation (.starter a) q :: below → s.starters.lookup a = some st →
      Entry s .next ({ s.ledger with
        calls := below.filter Frame.own
        pendingTaskCount := if st.nursery then s.pendingTaskCount - 1 else s.pendingTaskCount
        }.setStarter a { st with nursery := false, handle := false })
  | continuation {par : Parent} {p : ℕ} {below : List Frame} :
      s.stack = .continuation par (some p) :: below → (∀ a, par ≠ .starter a) →
      s.executor = true →
      Entry s .next
        ({ s.ledger with calls := below.filter Frame.own }.eraseTask p).closeIfFinished
  | continuationBody {par : Parent} {below : List Frame} :
      s.stack = .continuation par none :: below → s.ledger.finished = false →
      Entry s .next { s.ledger with calls := below.filter Frame.own }
  | continuationLast {par : Parent} {below : List Frame} :
      s.stack = .continuation par none :: below → s.ledger.finished = true →
      Entry s .next ({ s.ledger with
        calls := below.filter Frame.own
        parent := false
        executor := false
        scheduled := true }.submit .resumeParent)
  | adoptedStarter {p a : ℕ} {below : List Frame} {st : Starter Err} :
      s.stack = .adopt p (.starter a) :: below → s.starters.lookup a = some st →
      Entry s .next ({ s.ledger with
        calls := below.filter Frame.own
        tasks := s.tasks.erase p ++ [p]
        taskCount := s.taskCount + 1 }.setStarter a { st with handle := false })
  | adopted {p : ℕ} {par : Parent} {below : List Frame} :
      s.stack = .adopt p par :: below → (∀ a, par ≠ .starter a) →
      Entry s .next ({ s.ledger with
        calls := below.filter Frame.own
        tasks := s.tasks.erase p ++ [p]
        taskCount := s.taskCount + 1 }.setParent p (some par))
  | runSoonReturns {below : List Frame} : s.stack = .runSoon false :: below →
      Entry s .next s.ledger
  | submitResume {below : List Frame} : s.stack = .runSoon true :: below →
      Entry s .next ({ s.ledger with
        calls := below.filter Frame.own, scheduled := true }.submit .resumeParent)

theorem filter_erase_duty (l : List Callback) (cb : Callback) :
    (l.erase cb).filter Callback.duty = (l.filter Callback.duty).erase cb := by
  induction l with
  | nil => rfl
  | cons x l ih =>
    by_cases h : x = cb
    · subst h
      cases hd : x.duty with
      | true => simp [hd]
      | false =>
        have hnot : x ∉ l.filter Callback.duty := fun hx => by simp [hd] at hx
        simp [hd, List.erase_of_not_mem hnot]
    · rw [List.erase_cons_tail (by simpa using h)]
      cases hd : x.duty with
      | true => simp [hd, ih, List.erase_cons_tail (show ¬(x == cb) = true by simpa using h)]
      | false => simp [hd, ih]

theorem ledger_unqueue (s : State Err) (cb : Callback) :
    { s with queue := s.queue.erase cb }.ledger =
      { s.ledger with duties := s.ledger.duties.erase cb } := by
  simp only [State.ledger, filter_erase_duty]

theorem ledger_unqueue_run (s : State Err) (p : ℕ) :
    { s with queue := s.queue.erase (.run p) }.ledger = s.ledger := by
  rw [ledger_unqueue, List.erase_of_not_mem]
  simp [State.ledger, Callback.duty]

theorem entry_of_callback {cb : Callback} (hcb : cb ∈ s.queue)
    (h : { s with queue := s.queue.erase cb }.execute cb = .ok t) :
    Entry s (.callback cb) t.ledger := by
  cases cb with
  | run p =>
    simp only [State.execute] at h
    split at h
    · rename_i pr hp
      cases h
      have hset : (State.setPromise { s with queue := s.queue.erase (.run p) } p
          { pr with status := .running }).ledger =
            { s with queue := s.queue.erase (.run p) }.ledger :=
        ledger_setPromise_same (s := { s with queue := s.queue.erase (.run p) }) hp rfl
      rw [hset, ledger_unqueue_run]
      exact .run
    · cases h
  | cancel p =>
    obtain ⟨ht, hsome⟩ := ledger_cancelPromise h
    rw [ht, ledger_unqueue]
    exact .cancelTask hcb hsome
  | destroy p =>
    cases h
    rw [ledger_destroy, ledger_unqueue]
    exact .destroyTask hcb
  | resumeParent =>
    cases h
    rw [ledger_unqueue]
    exact .resumeParent hcb
  | cancelNursery =>
    cases h
    rw [ledger_cancel, ledger_unqueue]
    exact .cancelNursery hcb

theorem exists_dropBackref (s : State Err) : ∃ b, s.dropBackref = { s with backref := b } := by
  unfold State.dropBackref
  split_ifs
  · exact ⟨false, rfl⟩
  · exact ⟨s.backref, rfl⟩

theorem entry_of_continuation {par : Parent} {q : Option ℕ} {below : List Frame}
    (hst : s.stack = .continuation par q :: below) (hpar : ∀ a, par ≠ .starter a)
    (h : { s with stack := below }.continuation q = .ok t) : Entry s .next t.ledger := by
  obtain ⟨b, hb⟩ := exists_dropBackref { s with stack := below }
  unfold State.continuation at h
  rw [hb] at h
  simp only at h
  cases q with
  | some p =>
    split at h
    · cases h
    · rename_i hex
      have hexec : s.executor = true := by simpa using hex
      have hentry := Entry.continuation hst hpar hexec
      cases hf : State.finished (State.eraseTask { s with stack := below, backref := b } (some p)) with
      | true =>
        have hf' : Ledger.finished (Ledger.eraseTask
          { s.ledger with calls := below.filter Frame.own } p) = true := hf
        rw [Ledger.closeIfFinished, if_pos hf'] at hentry
        simp only [hf, if_true] at h
        cases h
        rw [ledger_enter _ rfl, ledger_submit _ rfl]
        exact hentry
      | false =>
        have hf' : Ledger.finished (Ledger.eraseTask
          { s.ledger with calls := below.filter Frame.own } p) = false := hf
        rw [Ledger.closeIfFinished, if_neg (by rw [hf']; decide)] at hentry
        simp only [hf, Bool.false_eq_true, if_false] at h
        cases h
        rw [ledger_enter_other _ rfl, ledger_submit _ rfl]
        exact hentry
  | none =>
    split at h
    · cases h
    · cases hf : State.finished (State.eraseTask { s with stack := below, backref := b } none) with
      | true =>
        simp only [hf, if_true] at h
        cases h
        rw [State.submitResume, if_pos rfl, ledger_enter_other _ rfl, ledger_submit _ rfl]
        exact .continuationLast hst hf
      | false =>
        simp only [hf, Bool.false_eq_true, if_false] at h
        cases h
        exact .continuationBody hst hf

theorem entry_of_adopted {p : ℕ} {par : Parent} {below : List Frame}
    (hst : s.stack = .adopt p par :: below)
    (h : { s with stack := below }.adopted p par = .ok t) : Entry s .next t.ledger := by
  unfold State.adopted at h
  split at h
  · cases h
  · split at h
    · split at h
      · rename_i hlook
        cases h
        exact .adoptedStarter hst hlook
      · cases h
    · rename_i hpar
      cases h
      rw [ledger_doResume]
      exact .adopted hst hpar

theorem entry_of_next (h : s.next = .ok t) : Entry s .next t.ledger := by
  unfold State.next at h
  split at h
  · rename_i a q below hst
    unfold State.startContinuation at h
    split at h
    · cases h
    · rename_i st hlook
      cases h
      have hentry := Entry.startContinuation hst hlook
      cases hn : st.nursery <;> simp only [hn, if_true, Bool.false_eq_true, if_false] at hentry ⊢ <;>
        exact hentry
  · rename_i par q below hst
    exact entry_of_continuation hst (fun a ha => by simp_all) h
  · rename_i hst
    exact entry_of_adopted hst h
  · rename_i ret below hst
    cases h
    cases ret with
    | true =>
      rw [State.submitResume, if_pos rfl, ledger_enter_other _ rfl, ledger_submit _ rfl]
      exact .submitResume hst
    | false =>
      rw [State.submitResume, if_neg (by decide), ledger_pop_other hst rfl]
      exact .runSoonReturns hst
  · rename_i below hst
    split_ifs at h with hnil
    cases h
    have hpop : State.ledger { s with stack := below, executor := false } =
        { s.ledger with executor := false } :=
      congrArg (fun g : Ledger Err => { g with executor := false }) (ledger_pop_other hst rfl)
    rw [hpop]
    exact .closed hst hnil
  · cases h

theorem parents_of_lookup {p : ℕ} {pr : Promise} (hp : s.promises.lookup p = some pr) :
    s.ledger.parents p = some pr.parent := by
  simp [State.ledger, hp]

theorem entry_of_startSuspend {a : ℕ} {st : Starter Err} {failure : Option Err}
    (ha : s.starters.lookup a = some st) (hp : st.promise = none) (hn : st.nursery = true)
    (h : s.startSuspend a st failure = .ok t) : Entry s (.startSuspend a failure) t.ledger := by
  unfold State.startSuspend at h
  split at h
  · cases h
    rw [ledger_doResume]
    exact .startPending ha hp hn
  · split at h <;> cases h

theorem entry_of_markStarted {a p : ℕ} {st : Starter Err} (ha : s.starters.lookup a = some st)
    (hp : st.promise = some p) (h : s.markStarted a st p = .ok t) :
    Entry s (.started a) t.ledger := by
  unfold State.markStarted at h
  simp only at h
  split at h
  · rename_i hc
    cases h
    exact .startedCancelling ha hp hc
  · rename_i hc
    split at h
    · rename_i pr hn hpr
      obtain ⟨he, ht⟩ := ledger_adopt h
      rw [ht, ledger_setPromise]
      exact .handOff ha hp (by simpa using hc) hn (by rw [parents_of_lookup hpr]; rfl) he
    · cases h

theorem entry_of_store {p : ℕ} {pr : Promise} {par : Parent} {out : Outcome Err}
    (hp : s.promises.lookup p = some pr) (hpar : pr.parent = some par)
    (h : (s.setPromise p { pr with status := .returned }).store par out = .ok t) :
    Entry s (.storeResult p out) t.ledger := by
  have hpar' : s.ledger.parents p = some (some par) := by rw [parents_of_lookup hp, hpar]
  have hset : (s.setPromise p { pr with status := .returned }).ledger = s.ledger := by
    refine ledger_setPromise_same hp ?_
    rfl
  cases par with
  | nursery =>
    rw [ledger_storeInNursery h, hset]
    exact .storeInNursery hpar'
  | scope =>
    rw [ledger_storeInScope h, hset]
    exact .storeInScope hpar'
  | starter a =>
    simp only [State.store, State.storeInStarter] at h
    split at h
    · cases h
    · rename_i st ha
      split at h
      · cases h
        rw [ledger_setStarter, hset]
        exact .storeInStarter hpar' ha
      · rename_i hout
        split_ifs at h
        cases h
        rw [hset]
        exact .ignoreInStarter hpar' hout

theorem entry_of_perform {a : Action Err} (h : s.perform a = .ok t) : Entry s a t.ledger := by
  cases performed_of_perform h with
  | openScope hk hj =>
    rw [ledger_enter_other _ rfl]
    exact .openScope hj
  | bodyPromise hst h =>
    obtain ⟨he, ht⟩ := ledger_addPromise h
    rw [ht, ledger_pop_other hst rfl]
    exact .bodyPromise he
  | @bodyDone below _ _ hst h =>
    have hpush : State.ledger { s with stack := .continuation .scope none :: below } =
        s.ledger.push (.continuation .scope none) := by
      rw [← ledger_pop_other hst rfl]
      exact ledger_enter { s with stack := below } rfl
    rw [ledger_storeInScope h, hpush]
    exact .bodyDone
  | joinClosed hk he => exact .joinClosed he
  | joinEmpty hk he hp hnil => exact .joinEmpty he hnil
  | join hk he hp hnil => exact .join he hnil
  | asyncCloseEmpty hk hp hnil => exact .asyncCloseEmpty hnil
  | asyncClose hk hp hnil =>
    rw [ledger_cancel]
    exact .asyncClose hnil
  | closeEmpty hk hnil =>
    rw [ledger_enter_other _ rfl]
    exact .closeEmpty hnil
  | close hk hnil =>
    rw [ledger_enter_other _ rfl, ledger_submit _ rfl]
    exact .close hnil
  | cancel =>
    rw [ledger_cancel]
    exact .cancel
  | startPromise h =>
    obtain ⟨he, ht⟩ := ledger_addPromise h
    rw [ht]
    exact .start he
  | startDone h =>
    rw [ledger_storeInNursery h]
    exact .startDone
  | newStart => exact .newStart
  | startEarlyCancel ha hp hn => exact .startEarlyCancel ha hp hn
  | startSuspend ha hp hn h => exact entry_of_startSuspend ha hp hn h
  | startCancel ha hh hc hp h =>
    rw [(ledger_cancelPromise h).1, ledger_setStarter]
    exact .startCancel ha hp hh hc
  | startCancelHanded ha hh hc hp => exact .startCancelHanded ha hp hh hc
  | started ha hs hp h => exact entry_of_markStarted ha hp h
  | dropStart ha hh hn hp =>
    rw [ledger_destroy]
    exact .dropStart ha hh hn hp
  | dropStartHanded ha hh hn hp => exact .dropStartHanded ha hh hn hp
  | await hp hs h =>
    rcases ledger_hookAwaitSuspend hp h with ht | ⟨par, hpar, ht⟩
    · rw [ht]
      exact .await
    · rw [ht]
      exact .awaitCancelled (by rw [parents_of_lookup hp, hpar])
  | resumeNothing => exact .resume
  | resume hp =>
    rw [ledger_doResume_same hp rfl]
    exact .resume
  | resumeAfterCancel hp hs hon h =>
    rcases ledger_doResumeAfterCancel hp rfl h with ht | ⟨par, hpar, ht⟩
    · rw [ht]
      exact .resume
    · rw [ht]
      exact .resumeCancelled (by rw [parents_of_lookup hp, hpar])
  | cancelConfirmed hst hp hs h =>
    obtain ⟨par, hpar, ht⟩ := ledger_propagateCancel h
    rw [ht, ledger_pop_other hst rfl]
    exact .cancelConfirmed (by rw [parents_of_lookup hp, hpar])
  | cancelRefused hst =>
    rw [ledger_pop_other hst rfl]
    exact .cancelRefused
  | storeResult hp hs hpar h => exact entry_of_store hp hpar h
  | finalSuspend hp hs hpar =>
    rw [ledger_enter _ rfl, ledger_setPromise]
    exact .finalSuspend (by rw [parents_of_lookup hp, hpar])
  | callback hcb h => exact entry_of_callback hcb h

/-- Every step makes an entry. -/
theorem entry_of_step {a : Action Err} (h : step s a = .ok t) : Entry s a t.ledger := by
  unfold Nursery.step at h
  split at h
  · exact entry_of_next h
  · split_ifs at h
    exact entry_of_perform h

end Corral.Nursery
