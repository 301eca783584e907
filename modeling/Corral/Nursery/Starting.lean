import Corral.Nursery.Handover

/-!
# What comes of `co_await start()`

The starter is resumed when its task has been handed over to the nursery, or when the task is done.
A starter that has been asked to cancel ends by cancellation, whatever the result, for
`await_must_resume()` of the start awaiter is false.

The start awaiter notes a cancellation only before the promise exists and while it has the promise;
`handOff()` gives the promise away to `adopt()`, which cancels it if the nursery is cancelled, before it
resumes the starter.  So the starter can end by cancellation although its task is in the nursery.

* `asks`: the starters that are asked to cancel;
* `Timely`: no starter is asked to cancel where its start awaiter does not heed it;
* `handed_over_or_terminated`: then the task has been adopted once, or has terminated and is never
  adopted.
-/

namespace Corral.Nursery

open ActionMachine Registry

variable {Err : Type*} {s t : State Err} {g : Ledger Err}

/-- The starter is asked to cancel, by `await_early_cancel()` or `await_cancel()` of its start
awaiter. -/
def asks (_ : State Err) : Action Err → Option ℕ
  | .startEarlyCancel b => some b
  | .startCancel b => some b
  | _ => none

/-- What the starter gets. -/
def Starter.outcome (st : Starter Err) (asked : Bool) : StartResult Err :=
  if asked then .cancelled else st.result

/-! ### The starters that are asked to cancel -/

/-- The starters that have been asked to cancel: a start awaiter heeds it unless it has handed its
task over. -/
structure Asked (asked : List ℕ) (g : Ledger Err) : Prop where
  fresh : ∀ b ∈ asked, b < g.nextId
  cancelling : ∀ b st, g.starters.lookup b = some st → st.cancelling = true → b ∈ asked
  heeded : ∀ b ∈ asked, ∀ st, g.starters.lookup b = some st →
    st.cancelling = true ∨ st.promise = none ∧ st.nursery = false

/-- What a start awaiter does when it is asked to cancel. -/
theorem heeds_of_asks {made : List (ℕ × ℕ)} {linked : List ℕ} {a : Action Err} {b : ℕ}
    (hi : Handover made linked s.ledger) (h : Entry s a g) (ha : asks s a = some b) :
    ∃ st, s.starters.lookup b = some st ∧
      ((st.promise = none → st.nursery = true) ∧
        g = s.ledger.setStarter b { st with cancelling := true } ∨
      st.promise = none ∧ st.nursery = false ∧ a = .startCancel b ∧ g = s.ledger) := by
  cases h with
  | startEarlyCancel hb _ hn =>
    cases ha
    exact ⟨_, hb, Or.inl ⟨fun _ => hn, rfl⟩⟩
  | startCancel hb hp =>
    cases ha
    refine ⟨_, hb, Or.inl ⟨fun hnone => ?_, rfl⟩⟩
    rw [hp] at hnone
    cases hnone
  | startCancelHanded hb hp hh =>
    cases ha
    refine ⟨_, hb, Or.inr ⟨hp, ?_, rfl, rfl⟩⟩
    by_contra hn
    have hhandle := (hi.unmade _ _ hb hp (by simpa using hn)).2.2
    rw [hh] at hhandle
    cases hhandle
  | _ => cases ha

/-- A start awaiter is cancelled only if it is asked to. -/
theorem cancelling_of_change {a : Action Err} {b : ℕ} {st st' : Starter Err}
    (h : Change s a b st st') (ha : asks s a ≠ some b) : st'.cancelling = st.cancelling := by
  cases h with
  | earlyCancel | cancel => exact absurd rfl ha
  | _ => rfl

/-- A start awaiter that is done with its task stays so. -/
theorem handed_of_change {a : Action Err} {b : ℕ} {st st' : Starter Err}
    (h : Change s a b st st')
    (hd : st.cancelling = true ∨ st.promise = none ∧ st.nursery = false) :
    st'.cancelling = true ∨ st'.promise = none ∧ st'.nursery = false := by
  cases h with
  | earlyCancel | cancel => exact Or.inl rfl
  | startPending _ hn =>
    refine Or.inl (hd.resolve_right fun hd => ?_)
    rw [hd.2] at hn
    cases hn
  | handOff => exact Or.inr ⟨rfl, rfl⟩
  | continued => exact hd.imp_right fun hd => ⟨hd.1, rfl⟩
  | _ => exact hd

/-- The step lemma. -/
theorem Asked.entry {made : List (ℕ × ℕ)} {linked asked : List ℕ} {a : Action Err}
    (hi : Asked asked s.ledger) (hh : Handover made linked s.ledger) (hcen : Census s)
    (h : Entry s a g) : Asked (asked ++ (asks s a).toList) g := by
  have hle := nextId_le_of_entry h
  refine ⟨fun b hmem => ?_, fun b st' hb hc => ?_, fun b hmem st' hb => ?_⟩
  · rcases List.mem_append.1 hmem with hold | hnew
    · exact lt_of_lt_of_le (hi.fresh b hold) hle
    · obtain ⟨st, hb, -⟩ := heeds_of_asks hh h (b := b) (by simpa using hnew)
      exact lt_of_lt_of_le (hcen.fresh b st hb) hle
  · by_cases ha : asks s a = some b
    · exact List.mem_append_right _ (by simp [ha])
    · refine List.mem_append_left _ ?_
      rcases change_of_entry h hb with hl | ⟨-, rfl⟩ | ⟨st, hl, hch⟩
      · exact hi.cancelling b st' hl hc
      · cases hc
      · exact hi.cancelling b st hl (cancelling_of_change hch ha ▸ hc)
  · rcases List.mem_append.1 hmem with hold | hnew
    · rcases change_of_entry h hb with hl | ⟨rfl, -⟩ | ⟨st, hl, hch⟩
      · exact hi.heeded b hold st' hl
      · exact absurd (hi.fresh _ hold) (lt_irrefl _)
      · exact handed_of_change hch (hi.heeded b hold st hl)
    · obtain ⟨st, hl, ⟨-, rfl⟩ | ⟨hp, hn, -, rfl⟩⟩ := heeds_of_asks hh h (b := b) (by simpa using hnew)
      · rw [Ledger.setStarter, lookup_insert_eq, if_pos rfl] at hb
        cases hb
        exact Or.inl rfl
      · cases Option.some.inj (hl.symm.trans hb)
        exact Or.inr ⟨hp, hn⟩

/-- The run lemma. -/
theorem asked_of_run {kind : Kind} {ok : State Err → Action Err → Prop}
    {l : List (State Err × Action Err)} (h : Run step ok (.init kind) l s) :
    Asked (events asks l) s.ledger := by
  refine h.invariant_of (I := fun l s => Asked (events asks l) s.ledger)
    (J := fun l s => Handover (events makes l) (events adopts l) s.ledger ∧ Books s)
    (fun l t hl => ⟨handover_of_run hl, books_of_reach hl.reach⟩) ?_ ?_
  · exact ⟨by simp, fun b st hb => (by cases hb), by simp⟩
  · intro l s a t hJ hi _ hs
    rw [events_concat]
    exact hi.entry hJ.1 hJ.2.census (entry_of_step hs)

/-! ### Starters that are cancelled in time -/

/-- No starter is cancelled during the hand-over of its task. -/
def Timely (s : State Err) : Action Err → Prop
  | .startCancel b => ∀ st ∈ s.starters.lookup b, st.promise ≠ none
  | _ => True

instance (s : State Err) : (a : Action Err) → Decidable (Timely s a)
  | .startCancel b => inferInstanceAs (Decidable (∀ st ∈ s.starters.lookup b, st.promise ≠ none))
  | .openScope | .bodyReturns _ | .join | .asyncClose | .close | .cancel | .start _ | .newStart
  | .startEarlyCancel _ | .startSuspend _ _ | .started _ | .dropStart _ | .await _ _ | .resume _ _
  | .cancelReturns _ | .storeResult _ _ | .finalSuspend _ | .callback _ | .next => instDecidableTrue

/-- Where a task was handed over, its starter has not been asked to cancel. -/
def Heeded (made : List (ℕ × ℕ)) (asked : List ℕ) (g : Ledger Err) : Prop :=
  ∀ b p, (b, p) ∈ made → ∀ st, g.starters.lookup b = some st → st.promise = none → b ∉ asked

/-- A start awaiter that has made its promise has not got another one to make. -/
theorem Handover.promise_of_made {made : List (ℕ × ℕ)} {linked : List ℕ} {b p : ℕ}
    {st : Starter Err} (hi : Handover made linked g) (hm : (b, p) ∈ made)
    (hb : g.starters.lookup b = some st) : st.promise ≠ none ∨ st.nursery = false := by
  obtain ⟨-, -, hw⟩ := hi.made b p hm
  cases hw with
  | pledged hl hp =>
    cases Option.some.inj (hl.symm.trans hb)
    exact Or.inl (by simp [hp])
  | passed _ hrec => exact Or.inr (hrec st hb).2.1
  | gone _ hnone => cases hnone.symm.trans hb

/-- The step lemma. -/
theorem Heeded.entry {made : List (ℕ × ℕ)} {linked asked : List ℕ} {a : Action Err}
    (hi : Heeded made asked s.ledger) (hh : Handover made linked s.ledger)
    (hasked : Asked asked s.ledger) (hok : Timely s a) (h : Entry s a g) :
    Heeded (made ++ (makes s a).toList) (asked ++ (asks s a).toList) g := by
  intro b p hm st' hb hp hmem
  rcases List.mem_append.1 hm with hold | hnew
  · rcases List.mem_append.1 hmem with hin | hasks
    · rcases change_of_entry h hb with hl | ⟨rfl, -⟩ | ⟨st, hl, hch⟩
      · exact hi b p hold st' hl hp hin
      · exact absurd (hasked.fresh _ hin) (lt_irrefl _)
      · cases hch with
        | handOff hsome hcan =>
          rcases hasked.heeded b hin st hl with ht | ⟨hnone, -⟩
          · rw [ht] at hcan
            cases hcan
          · rw [hsome] at hnone
            cases hnone
        | startPending => cases hp
        | _ => exact hi b p hold st hl hp hin
    · obtain ⟨st, hl, ⟨hearly, rfl⟩ | ⟨hnone, -, rfl, -⟩⟩ :=
        heeds_of_asks hh h (b := b) (by simpa using hasks)
      · rw [Ledger.setStarter, lookup_insert_eq, if_pos rfl] at hb
        cases hb
        rcases hh.promise_of_made hold hl with hsome | hn
        · exact hsome hp
        · rw [hearly hp] at hn
          cases hn
      · exact hok st hl hnone
  · have hmk : makes s a = some (b, p) := by simpa using hnew
    unfold makes at hmk
    split at hmk
    · cases hmk
      have hin : b ∈ asked := by simpa [asks] using hmem
      cases h with
      | startPending =>
        rw [Ledger.setParent, Ledger.setStarter, lookup_insert_eq, if_pos rfl] at hb
        cases hb
        cases hp
    · cases hmk

/-- The run lemma. -/
theorem heeded_of_run {kind : Kind} {l : List (State Err × Action Err)}
    (h : Run step Timely (.init kind) l s) :
    Heeded (events makes l) (events asks l) s.ledger := by
  refine h.invariant_of (I := fun l s => Heeded (events makes l) (events asks l) s.ledger)
    (J := fun l s => Handover (events makes l) (events adopts l) s.ledger ∧
      Asked (events asks l) s.ledger)
    (fun l t hl => ⟨handover_of_run hl, asked_of_run hl⟩) ?_ ?_
  · exact fun b p hm => (by simp at hm)
  · intro l s a t hJ hi hok hs
    rw [events_concat, events_concat]
    exact hi.entry hJ.1 hJ.2 hok (entry_of_step hs)

/-! ### A task that is not handed over -/

/-- The start awaiter has given up the promise: it will not hand it over any more. -/
def Ledger.Withheld (g : Ledger Err) (b p : ℕ) : Prop :=
  g.held p = 0 ∨
  ∃ st, g.starters.lookup b = some st ∧ st.promise = some p ∧ st.nursery = false

theorem Ledger.Withheld.entry {a : Action Err} {b p : ℕ} (hw : s.ledger.Withheld b p)
    (hc : Custody s.ledger) (hcen : Census s) (h : Entry s a g) (hp : p < s.nextId) :
    g.Withheld b p := by
  rcases hw with hheld | ⟨st, hb, hst, hn⟩
  · have hle := held_le_of_entry hc hcen h hp
    exact Or.inl (by omega)
  · replace hb : s.starters.lookup b = some st := hb
    rcases kept_or_dropped h hb with ⟨st', hb'⟩ | ⟨rfl, -⟩
    · refine Or.inr ⟨st', hb', ?_⟩
      rcases change_of_entry h hb' with hl | ⟨rfl, -⟩ | ⟨st₀, hl, hch⟩
      · rw [hb] at hl
        cases hl
        exact ⟨hst, hn⟩
      · exact absurd (hcen.fresh _ _ hb) (lt_irrefl _)
      · rw [hb] at hl
        cases hl
        cases hch with
        | earlyCancel _ ht | startPending _ ht | handOff _ _ ht =>
          rw [hn] at ht
          cases ht
        | continued => exact ⟨hst, rfl⟩
        | _ => exact ⟨hst, hn⟩
    · cases h with
      | dropStart hl _ _ hpr =>
        rw [hb] at hl
        cases hl
        cases hst.symm.trans hpr
        exact Or.inl (held_dropStart hc hb hst)
      | dropStartHanded hl _ _ hpr =>
        rw [hb] at hl
        cases hl
        rw [hst] at hpr
        cases hpr

/-- It is not in the nursery, and it has no parent. -/
theorem Ledger.Withheld.terminated {b p : ℕ} (hw : g.Withheld b p) (hc : Custody g) :
    g.inNursery p = 0 ∧ ∀ par, g.parents p ≠ some (some par) := by
  have hin : g.inNursery p = 0 := by
    rcases hw with hheld | ⟨st, hb, hst, -⟩
    · rw [Ledger.held] at hheld
      omega
    · exact inNursery_of_pledged hc hb hst
  refine ⟨hin, fun par hpar => ?_⟩
  cases par with
  | nursery | scope =>
    have := hc.linked p _ hpar (by simp)
    omega
  | starter a =>
    obtain ⟨st', ha, hp', hn'⟩ := hc.starter p a hpar
    rcases hw with hheld | ⟨st, hb, hst, hn⟩
    · exact free_of_held hheld a st' ha hp'
    · have hone : g.pledged p ≤ 1 := by
        have := hc.once p
        rw [Ledger.held] at this
        omega
      obtain rfl := Ledger.pledged_unique hone ha hp' hb hst
      rw [ha] at hb
      cases hb
      rw [hn] at hn'
      cases hn'

/-- The promise is withheld from the nursery for good. -/
theorem withheld_of_reach {b p : ℕ} (hr : Reach step anyAction s t) (hbk : Books s)
    (hp : p < s.nextId) (hw : s.ledger.Withheld b p) : p ∉ t.tasks ∧ p ∉ t.ledger.adoptions := by
  have hinv : Books t ∧ p < t.nextId ∧ t.ledger.Withheld b p := by
    refine hr.invariant (I := fun t => Books t ∧ p < t.nextId ∧ t.ledger.Withheld b p)
      ⟨hbk, hp, hw⟩ ?_
    rintro s a t ⟨hbk, hp, hw⟩ - hs
    have he := entry_of_step hs
    exact ⟨hbk.step hs, lt_of_lt_of_le hp (nextId_le_of_entry he),
      hw.entry hbk.custody hbk.census he hp⟩
  have hin := (hinv.2.2.terminated hinv.1.custody).1
  refine ⟨fun hmem => ?_, adoptions_of_inNursery hin⟩
  have := List.count_pos_iff.2 hmem
  rw [Ledger.inNursery] at hin
  have : t.ledger.tasks.count p = t.tasks.count p := rfl
  omega

/-! ### The outcome -/

/-- `co_await start()` is over: the starter is resumed, and no hand-over is in progress. -/
def Starter.Resumed (st : Starter Err) (s : State Err) (p : ℕ) : Prop :=
  st.handle = false ∧ st.nursery = false ∧ p ∉ s.ledger.adoptions

/-- Where no starter is cancelled during the hand-over of its task, the task has been adopted by the nursery once, if the
starter gets the value that was given to `TaskStarted`; otherwise the task has terminated, and is
never in the nursery. -/
theorem handed_over_or_terminated {kind : Kind} {l : List (State Err × Action Err)}
    (h : Run step Timely (.init kind) l s) {b p : ℕ} {st : Starter Err}
    (hm : (b, p) ∈ events makes l) (hb : s.starters.lookup b = some st) (hr : st.Resumed s p) :
    (st.outcome (decide (b ∈ events asks l)) = .value → (events adopts l).count p = 1) ∧
    (st.outcome (decide (b ∈ events asks l)) ≠ .value → p ∉ events adopts l ∧
      (∀ pr, s.promises.lookup p = some pr → pr.parent = none) ∧
      ∀ t, Reach step anyAction s t → p ∉ t.tasks ∧ p ∉ t.ledger.adoptions) := by
  have hbk := books_of_reach h.reach
  have hhand := handover_of_run h
  have hheed := heeded_of_run h
  have hask := asked_of_run h
  obtain ⟨-, hp, hw⟩ := hhand.made b p hm
  cases hw with
  | pledged hl hst hnot =>
    cases Option.some.inj (hl.symm.trans hb)
    have hw : s.ledger.Withheld b p := Or.inr ⟨st, hb, hst, hr.2.1⟩
    refine ⟨fun hv => ?_, fun _ => ⟨hnot, fun pr hpr => ?_, fun t ht => ?_⟩⟩
    · -- `TaskStarted` has been invoked, but the start awaiter still has the promise.
      unfold Starter.outcome at hv
      split_ifs at hv with hasked
      have hcan := hhand.waiting b st p hb hst (Or.inl hv)
      exact absurd (hask.cancelling b st hb hcan) (by simpa using hasked)
    · by_contra hne
      obtain ⟨par, hpar⟩ := Option.ne_none_iff_exists'.1 hne
      exact (hw.terminated hbk.custody).2 par ((parents_of_lookup hpr).trans (congrArg some hpar))
    · exact withheld_of_reach ht hbk hp hw
  | passed _ hrec hcount =>
    obtain ⟨hnone, -, hres, -⟩ := hrec st hb
    have hasked : b ∉ events asks l := hheed b p hm st hb hnone
    refine ⟨fun _ => ?_, fun hv => absurd ?_ hv⟩
    · rw [List.count_eq_zero.2 hr.2.2] at hcount
      exact hcount
    · simp [Starter.outcome, hasked, hres]
  | gone _ hnone => cases hnone.symm.trans hb

/-- A task is started, runs, and invokes `TaskStarted`. -/
def startedTask : List (Action ℕ) :=
  [.newStart, .startSuspend 0 none, .callback (.run 1), .started 0, .next]

theorem handed_over_or_terminated_startedTask :
    (events adopts (history step (.init .unsafeNursery) startedTask)).count 1 = 1 := by
  have hm : Meets step Timely (.init .unsafeNursery : State ℕ) startedTask := by decide
  have hrun : ∃ s st, exec step (.init .unsafeNursery : State ℕ) startedTask = .ok s ∧
      s.starters.lookup 0 = some st ∧ st.handle = false ∧ st.nursery = false ∧
      1 ∉ s.ledger.adoptions ∧ st.outcome false = .value :=
    ⟨_, _, rfl, rfl, rfl, rfl, by decide, rfl⟩
  obtain ⟨s, st, he, hb, hh, hn, hp, hv⟩ := hrun
  exact (handed_over_or_terminated (run_of_exec hm he) (by decide) hb ⟨hh, hn, hp⟩).1 hv

/-- The nursery has been cancelled, so `adopt()` cancels the task that is handed over; within the
`await_cancel()` of its awaiter the starter is cancelled. -/
def cancelledInHandOff : List (Action ℕ) :=
  [.cancel, .newStart, .startSuspend 0 none, .callback (.run 1), .await 1 ⟨false, false, false⟩, .started 0,
    .startCancel 0, .cancelReturns false, .next]

/-- So the starter can end by cancellation while its task is in the nursery. -/
theorem not_handed_over_or_terminated :
    ¬ ∀ (kind : Kind) (l : List (State ℕ × Action ℕ)) (s : State ℕ) (b p : ℕ) (st : Starter ℕ),
      Run step anyAction (.init kind) l s → (b, p) ∈ events makes l →
      s.starters.lookup b = some st → st.Resumed s p →
      st.outcome (decide (b ∈ events asks l)) ≠ .value → p ∉ s.tasks := by
  intro h
  have hm : Meets step anyAction (.init .unsafeNursery : State ℕ) cancelledInHandOff :=
    meets_of_forall (fun _ _ _ => trivial) _
  have hrun : ∃ s st, exec step (.init .unsafeNursery : State ℕ) cancelledInHandOff = .ok s ∧
      s.starters.lookup 0 = some st ∧ st.handle = false ∧ st.nursery = false ∧
      1 ∉ s.ledger.adoptions ∧ 1 ∈ s.tasks := ⟨_, _, rfl, rfl, rfl, rfl, by decide, by decide⟩
  obtain ⟨s, st, he, hb, hh, hn, hp, hmem⟩ := hrun
  have hasked : 0 ∈ events asks (history step (.init .unsafeNursery : State ℕ) cancelledInHandOff) := by
    decide
  refine h .unsafeNursery _ s 0 1 st (run_of_exec hm he) (by decide) hb ⟨hh, hn, hp⟩ ?_ hmem
  simp [Starter.outcome, hasked]

end Corral.Nursery
