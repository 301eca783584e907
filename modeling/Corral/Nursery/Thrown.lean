import Corral.Nursery.Cancellation
import Corral.Nursery.Starting

/-!
# Exceptions of a task that is being started

Until `TaskStarted` is invoked, an exception of the task is stored in the start awaiter, and the
starter rethrows it; afterwards the task belongs to the nursery, and so do its exceptions.  The callable
is invoked by the task, so this is also true of what the callable throws.

An exception gets lost that the task throws while its start awaiter has it and has been cancelled: it is
stored in the start awaiter, whose `await_must_resume()` is false.

What `makePromise()` throws by itself, when it moves the arguments or allocates the coroutine, is not an
exception of the task: it is stored in the nursery, and then the assertion of `await_suspend()` fails.

* `Heard`: no such exception is thrown;
* `Failed`: the start awaiter has an exception that the starter will get;
* `exception_observed_once`: the starter or the nursery gets the exception, and not both.
-/

namespace Corral.Nursery

open ActionMachine Registry

variable {Err : Type*} {s t : State Err} {g : Ledger Err}

def StartResult.isError : StartResult Err → Bool
  | .error _ => true
  | _ => false

/-- The task that has thrown suspends finally, or the call on top is executed. -/
def Action.unwinds : Action Err → Option ℕ → Bool
  | .next, _ => true
  | .finalSuspend p, q => q == some p
  | _, _ => false

/-- No other code runs between `unhandled_exception()` of a task and its final suspension. -/
def Unwinding (s : State Err) (a : Action Err) : Prop :=
  ∀ e ∈ s.starters.entries, e.2.result.isError = true → e.2.nursery = true →
    a.unwinds e.2.promise = true

/-- The start awaiter that is the parent of the promise. -/
def State.starterOf (s : State Err) (p : ℕ) : Option ℕ :=
  match s.ledger.parents p with
  | some (some (.starter b)) => some b
  | _ => none

/-- No task throws whose start awaiter has been cancelled. -/
def Heeds (s : State Err) : Action Err → Prop
  | .storeResult p (.error _) =>
    ∀ b ∈ s.starterOf p, ∀ st ∈ s.starters.lookup b, st.cancelling = false
  | _ => True

def Heard (s : State Err) (a : Action Err) : Prop := Unwinding s a ∧ Heeds s a

instance (s : State Err) (a : Action Err) : Decidable (Unwinding s a) :=
  inferInstanceAs (Decidable (∀ e ∈ s.starters.entries, e.2.result.isError = true →
    e.2.nursery = true → a.unwinds e.2.promise = true))

instance (s : State Err) : (a : Action Err) → Decidable (Heeds s a)
  | .storeResult p (.error _) => inferInstanceAs (Decidable
      (∀ b ∈ s.starterOf p, ∀ st ∈ s.starters.lookup b, st.cancelling = false))
  | .storeResult _ .join | .storeResult _ .cancel | .openScope | .bodyReturns _ | .join | .asyncClose
  | .close | .cancel | .start _ | .newStart | .startEarlyCancel _ | .startSuspend _ _ | .startCancel _
  | .started _ | .dropStart _ | .await _ _ | .resume _ _ | .cancelReturns _ | .finalSuspend _
  | .callback _ | .next => instDecidableTrue

instance (s : State Err) (a : Action Err) : Decidable (Heard s a) :=
  inferInstanceAs (Decidable (Unwinding s a ∧ Heeds s a))

theorem eq_of_unwinds {a : Action Err} {q : Option ℕ} (h : a.unwinds q = true) :
    a = .next ∨ ∃ p, a = .finalSuspend p := by
  unfold Action.unwinds at h
  split at h
  · exact Or.inl rfl
  · exact Or.inr ⟨_, rfl⟩
  · cases h

theorem Unwinding.of_lookup {a : Action Err} {b : ℕ} {st : Starter Err} {err : Err}
    (h : Unwinding s a) (hb : s.starters.lookup b = some st) (hres : st.result = .error err)
    (hn : st.nursery = true) : a.unwinds st.promise = true :=
  h ⟨b, st⟩ (AList.mem_lookup_iff.1 hb) (by simp [hres, StartResult.isError]) hn

/-! ### An exception that the starter gets -/

/-- The start awaiter has an exception, and is not cancelled any more. -/
def Ledger.Failed (g : Ledger Err) (b : ℕ) (err : Err) : Prop :=
  ∀ st, g.starters.lookup b = some st → st.result = .error err ∧ st.cancelling = false ∧
    st.promise ≠ none ∧ (st.nursery = true ∨ st.handle = false)

/-- The step lemma: the starter is not asked to cancel, and the exception stays. -/
theorem Ledger.Failed.entry {a : Action Err} {b : ℕ} {err : Err} (hf : s.ledger.Failed b err)
    (hc : Custody s.ledger) (hb : b < s.nextId) (hun : Unwinding s a) (h : Entry s a g) :
    asks s a ≠ some b ∧ g.Failed b err := by
  -- While the task has not suspended finally, only the end of the task can come next.
  have hend : ∀ {st : Starter Err}, s.starters.lookup b = some st → st.nursery = true →
      a.unwinds st.promise = true := fun hl hn => hun.of_lookup hl (hf _ hl).1 hn
  refine ⟨fun ha => ?_, fun st' hb' => ?_⟩
  · cases h with
    | startEarlyCancel hl hp =>
      cases ha
      exact (hf _ hl).2.2.1 hp
    | startCancel hl hp hh =>
      cases ha
      have hn := (hf _ hl).2.2.2.resolve_right (by simp [hh])
      cases hend hl hn
    | startCancelHanded hl hp =>
      cases ha
      exact (hf _ hl).2.2.1 hp
    | _ => cases ha
  · rcases change_of_entry h hb' with hl | ⟨rfl, -⟩ | ⟨st, hl, hch⟩
    · exact hf st' hl
    · exact absurd hb (lt_irrefl _)
    · obtain ⟨hres, hcan, hp, hover⟩ := hf st hl
      cases hch with
      | earlyCancel hnone | startPending hnone => exact absurd hnone hp
      | cancel _ hh =>
        cases hend hl (hover.resolve_right (by simp [hh]))
      | startedCancelling _ ht =>
        rw [hcan] at ht
        cases ht
      | handOff _ _ hn => cases hend hl hn
      | cancelled hpar hnext hfin =>
        obtain ⟨st₀, hl₀, -, hn⟩ := hc.starter _ b hpar
        rcases eq_of_unwinds (hend hl₀ hn) with rfl | ⟨q, rfl⟩
        · exact absurd rfl hnext
        · exact absurd rfl (hfin q)
      | thrown hpar =>
        obtain ⟨st₀, hl₀, -, hn⟩ := hc.starter _ b hpar
        cases hend hl₀ hn
      | continued => exact ⟨hres, hcan, hp, Or.inr rfl⟩
      | adopted => exact ⟨hres, hcan, hp, Or.inr rfl⟩

/-- The run lemma. -/
theorem failed_of_run {b : ℕ} {err : Err} {l : List (State Err × Action Err)}
    (hr : Run step Heard s l t) (hbk : Books s) (hb : b < s.nextId) (hf : s.ledger.Failed b err) :
    b ∉ events asks l ∧ t.ledger.Failed b err := by
  have hinv : Books t ∧ b < t.nextId ∧ b ∉ events asks l ∧ t.ledger.Failed b err := by
    refine hr.invariant (I := fun l t => Books t ∧ b < t.nextId ∧ b ∉ events asks l ∧
      t.ledger.Failed b err) ⟨hbk, hb, by simp, hf⟩ ?_
    rintro l s a t ⟨hbk, hb, hnot, hf⟩ hok hs
    have he := entry_of_step hs
    obtain ⟨ha, hf'⟩ := hf.entry hbk.custody hb hok.1 he
    refine ⟨hbk.step hs, lt_of_lt_of_le hb (nextId_le_of_entry he), ?_, hf'⟩
    rw [events_concat, List.mem_append, Option.mem_toList]
    exact not_or_intro hnot ha
  exact hinv.2.2

/-- A start awaiter that has handed its task over keeps the value. -/
theorem handed_of_run {b : ℕ} {ok : State Err → Action Err → Prop}
    {l : List (State Err × Action Err)} (hr : Run step ok s l t) (hbk : Books s)
    (hb : b < s.nextId) (hd : s.ledger.Handed b) : t.ledger.Handed b := by
  have hinv : Books t ∧ b < t.nextId ∧ t.ledger.Handed b := by
    refine hr.reach.invariant (I := fun t => Books t ∧ b < t.nextId ∧ t.ledger.Handed b)
      ⟨hbk, hb, hd⟩ ?_
    rintro s a t ⟨hbk, hb, hd⟩ - hs
    have he := entry_of_step hs
    exact ⟨hbk.step hs, lt_of_lt_of_le hb (nextId_le_of_entry he),
      handed_of_entry hbk.custody he hb hd⟩
  exact hinv.2.2

/-- Promises that are made later are others. -/
theorem le_of_makes {b p : ℕ} {ok : State Err → Action Err → Prop}
    {l : List (State Err × Action Err)} (hr : Run step ok s l t) (hm : (b, p) ∈ events makes l) :
    s.nextId ≤ p := by
  have hinv : s.nextId ≤ t.nextId ∧ ∀ b p, (b, p) ∈ events makes l → s.nextId ≤ p := by
    refine hr.invariant (I := fun l t => s.nextId ≤ t.nextId ∧
      ∀ b p, (b, p) ∈ events makes l → s.nextId ≤ p) ⟨le_rfl, by simp⟩ ?_
    rintro l u a v ⟨hle, hall⟩ - hs
    refine ⟨hle.trans (nextId_le_of_entry (entry_of_step hs)), fun b p hm => ?_⟩
    rw [events_concat, List.mem_append, Option.mem_toList] at hm
    rcases hm with hm | hm
    · exact hall b p hm
    · unfold makes at hm
      split at hm
      · cases hm
        exact hle
      · cases hm
  exact hinv.2 b p hm

/-! ### Who gets the exception -/

/-- A task that was started throws: its start awaiter has it and gets the exception, or has handed
it over. -/
theorem thrown_cases {made : List (ℕ × ℕ)} {linked : List ℕ} {b p : ℕ} {err : Err}
    (hh : Handover made linked s.ledger) (hc : Custody s.ledger) (hm : (b, p) ∈ made)
    (h : Entry s (.storeResult p (.error err)) g) :
    (s.ledger.parents p = some (some (.starter b)) ∧ ∃ st, s.starters.lookup b = some st ∧
      st.promise = some p ∧ st.nursery = true ∧
      g = s.ledger.setStarter b { st with result := .error err }) ∨
    s.ledger.Handed b ∧ stored s (.storeResult p (.error err)) = some err := by
  obtain ⟨-, -, hw⟩ := hh.made b p hm
  have hnursery : ∀ {par : Parent}, (∀ a, par ≠ .starter a) →
      s.ledger.parents p = some (some par) → s.ledger.Handed b := by
    intro par hne hpar
    have hpos := hc.linked p par hpar hne
    cases hw with
    | pledged hl hst =>
      have := inNursery_of_pledged hc hl hst
      omega
    | passed _ hrec => exact hrec
    | gone hheld =>
      rw [Ledger.held] at hheld
      omega
  cases h with
  | storeInNursery hpar => exact Or.inr ⟨hnursery (by simp) hpar, by simp only [stored, hpar]⟩
  | storeInScope hpar => exact Or.inr ⟨hnursery (by simp) hpar, by simp only [stored, hpar]⟩
  | storeInStarter hpar hb =>
    obtain ⟨st', hb', hst', hn'⟩ := hc.starter p _ hpar
    cases Option.some.inj (hb'.symm.trans hb)
    cases hw with
    | pledged hl hst =>
      have hone := hc.once p
      rw [Ledger.held] at hone
      obtain rfl := Ledger.pledged_unique (by omega) hb' hst' hl hst
      exact Or.inl ⟨hpar, _, hb, hst', hn', rfl⟩
    | passed hfree => exact absurd hst' (hfree _ _ hb')
    | gone hheld => exact absurd hst' (free_of_held hheld _ _ hb')
  | ignoreInStarter _ hne => exact absurd rfl (hne err)

/-- The action by which a task throws. -/
def Action.throws : Action Err → Bool
  | .storeResult _ (.error _) => true
  | _ => false

theorem storeError_ne_assertion (s : State Err) (err : Err) : s.storeError err ≠ .error .assertion := by
  unfold State.storeError
  split_ifs <;> simp

/-- No assertion fails when an exception is stored. -/
theorem throws_ne_assertion {a : Action Err} (ha : a.throws = true) : step s a ≠ .error .assertion := by
  unfold Action.throws at ha
  split at ha
  · rename_i p err
    simp only [Nursery.step]
    split_ifs
    · simp only [State.perform]
      split
      · split
        · rename_i par _ _
          cases par with
          | nursery => exact storeError_ne_assertion _ _
          | scope => exact storeError_ne_assertion _ _
          | starter b =>
            simp only [State.store, State.storeInStarter]
            split <;> simp
        · simp
      · simp
    · simp
  · cases ha

theorem lt_of_storeResult {p : ℕ} {out : Outcome Err} (hc : Custody s.ledger)
    (h : Entry s (.storeResult p out) g) : p < s.nextId := by
  cases h with
  | storeInNursery hpar => exact hc.lt_of_parents hpar
  | storeInScope hpar => exact hc.lt_of_parents hpar
  | storeInStarter hpar => exact hc.lt_of_parents hpar
  | ignoreInStarter hpar => exact hc.lt_of_parents hpar

/-- The promise of a task that throws was made before. -/
theorem mem_makes_of_throws {b p : ℕ} {out : Outcome Err} {ok : State Err → Action Err → Prop}
    {l₁ l₂ : List (State Err × Action Err)} {v : State Err} (hbk : Books s)
    (hs : step s (.storeResult p out) = .ok v) (hr : Run step ok v l₂ t)
    (hm : (b, p) ∈ events makes (l₁ ++ (s, .storeResult p out) :: l₂)) :
    (b, p) ∈ events makes l₁ := by
  have he := entry_of_step hs
  rw [events_append, events_cons, List.mem_append] at hm
  refine hm.resolve_right fun hlater => ?_
  have hle := (nextId_le_of_entry he).trans (le_of_makes hr hlater)
  exact absurd (lt_of_storeResult hbk.custody he) (not_lt.2 hle)

/-- The exception is stored in the start awaiter, and stays there. -/
theorem starter_gets {kind : Kind} {b p : ℕ} {err : Err} {l₁ l₂ : List (State Err × Action Err)}
    {v : State Err} {st : Starter Err} (hr₁ : Run step Heard (.init kind) l₁ s)
    (hs : step s (.storeResult p (.error err)) = .ok v) (hr₂ : Run step Heard v l₂ t)
    (hl : s.starters.lookup b = some st) (hst : st.promise = some p) (hn : st.nursery = true)
    (hcan : st.cancelling = false)
    (hv : v.ledger = s.ledger.setStarter b { st with result := .error err }) {st' : Starter Err}
    (hl' : t.starters.lookup b = some st') :
    st'.outcome (decide (b ∈ events asks (l₁ ++ (s, .storeResult p (.error err)) :: l₂))) =
      .error err := by
  have hbk := books_of_reach hr₁.reach
  have hb := hbk.census.fresh b st hl
  have hnow : v.ledger.Failed b err := by
    intro st₁ hl₁
    rw [hv, Ledger.setStarter, lookup_insert_eq, if_pos rfl] at hl₁
    cases hl₁
    exact ⟨rfl, hcan, by simp [hst], Or.inl hn⟩
  obtain ⟨hlater, hfailed⟩ := failed_of_run hr₂ (hbk.step hs)
    (lt_of_lt_of_le hb (nextId_le_of_entry (entry_of_step hs))) hnow
  have hbefore : b ∉ events asks l₁ := fun hmem => by
    rcases (asked_of_run hr₁).heeded b hmem st hl with ht | ⟨hnone, -⟩
    · rw [hcan] at ht
      cases ht
    · rw [hst] at hnone
      cases hnone
  have hnot : b ∉ events asks (l₁ ++ (s, .storeResult p (.error err)) :: l₂) := by
    rw [events_append, events_cons, List.mem_append]
    exact not_or_intro hbefore hlater
  simp [Starter.outcome, hnot, (hfailed st' hl').1]

/-- A task throws before it invokes `TaskStarted`. -/
def thrownBefore : List (Action ℕ) :=
  [.newStart, .startSuspend 0 none, .callback (.run 1), .storeResult 1 (.error 7),
    .finalSuspend 1, .next]

/-- The starter is cancelled before its task has run, and then the task throws. -/
def thrownCancelled : List (Action ℕ) :=
  [.newStart, .startSuspend 0 none, .startCancel 0, .callback (.run 1),
    .storeResult 1 (.error 7), .finalSuspend 1, .next]

end Corral.Nursery
