import Corral.Nursery.Custody

/-!
# The first error, and the cancellation of the tasks

`BasicNursery::storeError()` keeps the first error and cancels the nursery.  A nursery that is
cancelled submits the cancellation of every task it has, and `adopt()` cancels every promise that
comes later.

* `stored` and `cancels`: the error that a step passes to `storeError()`, and the promise whose
  `cancel()` it calls;
* `Delivery`: for every promise the calls of `cancel()` and those that wait in an executor are
  counted together;
* `first_error`: the nursery reports the first error it was given, and every task of a nursery that
  is being cancelled is cancelled once, in every run.
-/

namespace Corral.Nursery

open ActionMachine Registry

variable {Err : Type*} {s t : State Err} {g g' : Ledger Err}

/-- `BasicNursery::wrapError()`: the error that is reported, if there is one. -/
def State.wrapError (s : State Err) : Option Err := s.error

/-- The error that is passed to `storeError()`: a task of the nursery has failed, or its body. -/
def stored (s : State Err) : Action Err → Option Err
  | .bodyReturns (.done (.error err)) => some err
  | .start (.done (.error err)) => some err
  | .storeResult p (.error err) => match s.ledger.parents p with
    | some (some .nursery) => some err
    | some (some .scope) => some err
    | _ => none
  | _ => none

/-- The promise whose `BasePromise::cancel()` is called. -/
def cancels (s : State Err) : Action Err → Option ℕ
  | .callback (.cancel p) => some p
  | .bodyReturns .promise => if s.cancelling then some s.nextId else none
  | .start .promise => if s.cancelling then some s.nextId else none
  | .startSuspend a none => match s.starters.lookup a with
    | some st => if st.cancelling then some s.nextId else none
    | none => none
  | .startCancel a => match s.starters.lookup a with
    | some st => st.promise
    | none => none
  | .started a => match s.starters.lookup a with
    | some st => if s.cancelling ∧ st.cancelling = false then st.promise else none
    | none => none
  | _ => none

/-! ### The first error -/

theorem Ledger.error_cancel (g : Ledger Err) : g.cancel.error = g.error := by
  unfold Ledger.cancel
  split_ifs <;> rfl

/-- A step stores the error, if there is none yet. -/
theorem error_of_entry {a : Action Err} (h : Entry s a g) : g.error = s.error.or (stored s a) := by
  have hnone : s.error = s.error.or none := (Option.or_none).symm
  have hcan : ∀ (p : ℕ) (par : Parent), ((s.ledger.cancelled par).finish p par).error = s.error := by
    intro p par
    obtain ⟨sts, hsts⟩ := s.ledger.exists_cancelled par
    rw [hsts]
    rfl
  cases h with
  | bodyDone =>
    rename_i out
    cases out with
    | error err => exact Ledger.error_cancel _
    | cancel => exact (Ledger.error_cancel _).trans hnone
    | join => exact hnone
  | asyncClose | cancel | cancelNursery => exact (Ledger.error_cancel _).trans hnone
  | startDone =>
    rename_i out
    cases out with
    | error err => exact Ledger.error_cancel _
    | cancel | join => exact hnone
  | storeInNursery hp =>
    rename_i p out
    cases out with
    | error err =>
      simp only [stored, hp]
      exact Ledger.error_cancel _
    | cancel | join => exact hnone
  | storeInScope hp =>
    rename_i p out
    cases out with
    | error err =>
      simp only [stored, hp]
      exact Ledger.error_cancel _
    | cancel => exact (Ledger.error_cancel _).trans hnone
    | join => exact hnone
  | storeInStarter hp =>
    simp only [stored, hp]
    exact hnone
  | ignoreInStarter hp hout =>
    rename_i p b out
    cases out with
    | error err => exact absurd rfl (hout err)
    | cancel | join => exact hnone
  | awaitCancelled | resumeCancelled | cancelConfirmed => exact (hcan _ _).trans hnone
  | continuation =>
    unfold Ledger.closeIfFinished
    split_ifs <;> exact hnone
  | _ => exact hnone

/-! ### The delivery of the cancellations -/

/-- The calls of `cancel()` on the promise, and those that wait in an executor; `cs` have been
called. -/
def Ledger.due (g : Ledger Err) (cs : List ℕ) (q : ℕ) : ℕ :=
  cs.count q + g.duties.count (.cancel q)

/-- `cancel()` is called on `p`, if at all. -/
theorem Ledger.due_append (g : Ledger Err) (cs : List ℕ) (b : Bool) (p q : ℕ) :
    g.due (cs ++ (if b then some p else none : Option ℕ).toList) q =
      g.due cs q + if b = true ∧ p = q then 1 else 0 := by
  cases b with
  | false => simp [Ledger.due]
  | true =>
    simp only [Ledger.due, List.count_append, if_true, Option.toList_some, List.count_cons,
      List.count_nil, beq_iff_eq, true_and]
    omega

theorem Ledger.due_append_ne (g : Ledger Err) (cs : List ℕ) (b : Bool) {p q : ℕ} (h : q ≠ p) :
    g.due (cs ++ (if b then some p else none : Option ℕ).toList) q = g.due cs q := by
  rw [g.due_append, if_neg (fun hpq => h hpq.2.symm), Nat.add_zero]

/-- The promises of the nursery are cancelled once if the nursery is; and so have been those of
`cov`, which may be gone. -/
structure Delivery (cov : Set ℕ) (cs : List ℕ) (g : Ledger Err) : Prop where
  inNursery : ∀ q, 0 < g.inNursery q → g.due cs q = if g.cancelling then 1 else 0
  pledged : ∀ a st q, g.starters.lookup a = some st → st.promise = some q →
    st.cancelling = false → g.due cs q = 0
  fresh : ∀ q, g.nextId ≤ q → g.due cs q = 0
  opened : g.cancelling = false → ∀ q, 0 < g.inNursery q → g.executor = true
  covered : ∀ q ∈ cov, q < g.nextId ∧ g.pledged q = 0 ∧ g.cancelling = true ∧ g.due cs q = 1

namespace Delivery

variable {cov : Set ℕ} {cs : List ℕ}

/-- No promise is cancelled or made. -/
theorem of_frame (hi : Delivery cov cs g)
    (hin : ∀ q, 0 < g'.inNursery q → 0 < g.inNursery q) (hc : g'.cancelling = g.cancelling)
    (hst : ∀ a st q, g'.starters.lookup a = some st → st.promise = some q →
      st.cancelling = false → ∃ b st', g.starters.lookup b = some st' ∧ st'.promise = some q ∧
        st'.cancelling = false)
    (hpl : ∀ q < g.nextId, g'.pledged q ≤ g.pledged q) (hn : g.nextId ≤ g'.nextId)
    (hd : ∀ q, g'.duties.count (.cancel q) = g.duties.count (.cancel q))
    (he : g.cancelling = false → (∃ q, 0 < g'.inNursery q) → g.executor = true →
      g'.executor = true) : Delivery cov cs g' := by
  have hdue : ∀ q, g'.due cs q = g.due cs q := fun q => by rw [Ledger.due, Ledger.due, hd]
  refine ⟨fun q h => ?_, fun a st q ha hp hcan => ?_, fun q h => ?_, fun hf q h => ?_, fun q hq => ?_⟩
  · rw [hdue, hc]
    exact hi.inNursery q (hin q h)
  · obtain ⟨b, st', hb, hp', hcan'⟩ := hst a st q ha hp hcan
    rw [hdue]
    exact hi.pledged b st' q hb hp' hcan'
  · rw [hdue]
    exact hi.fresh q (hn.trans h)
  · rw [hc] at hf
    exact he hf ⟨q, h⟩ (hi.opened hf q (hin q h))
  · obtain ⟨hlt, hzero, hcan, hone⟩ := hi.covered q hq
    exact ⟨hlt.trans_le hn, Nat.le_zero.1 (hzero ▸ hpl q hlt), hc.trans hcan, (hdue q).trans hone⟩

/-- Only the flags and the counters change. -/
theorem of_same (hi : Delivery cov cs g) (hin : ∀ q, g'.inNursery q ≤ g.inNursery q)
    (hc : g'.cancelling = g.cancelling) (hst : g'.starters = g.starters)
    (hn : g'.nextId = g.nextId)
    (hd : ∀ q, g'.duties.count (.cancel q) = g.duties.count (.cancel q))
    (he : g.cancelling = false → (∃ q, 0 < g'.inNursery q) → g.executor = true →
      g'.executor = true) : Delivery cov cs g' := by
  refine hi.of_frame (fun q h => h.trans_le (hin q)) hc (fun a st q ha hp hcan => ?_) (fun q _ => ?_)
    hn.ge hd he
  · exact ⟨a, st, hst ▸ ha, hp, hcan⟩
  · rw [Ledger.pledged, hst]
    rfl

/-- A start awaiter changes something else than the promise it holds, and is not un-cancelled. -/
theorem setStarter (hi : Delivery cov cs g) {a : ℕ} {st st' : Starter Err}
    (ha : g.starters.lookup a = some st) (hp : st'.promise = st.promise)
    (hcan : st'.cancelling = false → st.cancelling = false) :
    Delivery cov cs (g.setStarter a st') := by
  refine hi.of_frame (fun q h => h) rfl (fun b stb q hb hpb hcb => ?_) (fun q _ => ?_) le_rfl
    (fun q => rfl) fun _ _ h => h
  · rw [Ledger.setStarter, lookup_insert_eq] at hb
    split_ifs at hb with hba
    · cases hb
      exact ⟨a, st, ha, hp ▸ hpb, hcan hcb⟩
    · exact ⟨b, stb, hb, hpb, hcb⟩
  · have hpl := g.pledged_setStarter ha st' q
    rw [hp] at hpl
    omega

theorem cancelled (hi : Delivery cov cs g) (par : Parent) : Delivery cov cs (g.cancelled par) := by
  unfold Ledger.cancelled
  split
  · split
    · rename_i ha
      exact hi.setStarter ha rfl id
    · exact hi
  · exact hi

/-- A call is entered, or returns, that adopts nothing. -/
theorem of_calls (hi : Delivery cov cs g) {fs : List Frame}
    (h : fs.filterMap Frame.adopting = g.adoptions) : Delivery cov cs { g with calls := fs } := by
  have hin : ∀ q, { g with calls := fs }.inNursery q = g.inNursery q := fun q => by
    rw [Ledger.inNursery, Ledger.inNursery, ← h]
    rfl
  exact hi.of_same (fun q => (hin q).le) rfl rfl rfl (fun q => rfl) fun _ _ h => h

theorem push (hi : Delivery cov cs g) {f : Frame} (hf : f.adopting = none) :
    Delivery cov cs (g.push f) :=
  hi.of_calls (by rw [List.filterMap_cons_none hf, Ledger.adoptions])

theorem pop (hi : Delivery cov cs g) {f : Frame} {fs : List Frame} (hfs : g.calls = f :: fs)
    (hf : f.adopting = none) : Delivery cov cs { g with calls := fs } :=
  hi.of_calls (by rw [Ledger.adoptions, hfs, List.filterMap_cons_none hf])

theorem submit (hi : Delivery cov cs g) {cb : Callback} (hcb : ∀ q, cb ≠ .cancel q) :
    Delivery cov cs (g.submit cb) := by
  refine hi.of_same (fun q => le_rfl) rfl rfl rfl (fun q => ?_) fun _ _ h => h
  simp [Ledger.submit, List.count_append, hcb q]

theorem unqueue (hi : Delivery cov cs g) {cb : Callback} (hcb : ∀ q, cb ≠ .cancel q) :
    Delivery cov cs { g with duties := g.duties.erase cb } := by
  refine hi.of_same (fun q => le_rfl) rfl rfl rfl (fun q => ?_) fun _ _ h => h
  exact List.count_erase_of_ne (hcb q).symm

/-- The cancellation of a task is taken off the queue, and delivered. -/
theorem deliver (hi : Delivery cov cs g) {p : ℕ} (hp : .cancel p ∈ g.duties) :
    Delivery cov (cs ++ [p]) { g with duties := g.duties.erase (.cancel p) } := by
  have hdue : ∀ q, { g with duties := g.duties.erase (.cancel p) }.due (cs ++ [p]) q =
      g.due cs q := by
    intro q
    simp only [Ledger.due, List.count_append]
    by_cases hq : q = p
    · subst hq
      have hpos := List.count_pos_iff.2 hp
      rw [List.count_erase_self]
      simp only [List.count_cons_self, List.count_nil]
      omega
    · rw [List.count_erase_of_ne (by simpa using hq)]
      simp [Ne.symm hq]
  refine ⟨fun q h => ?_, fun a st q ha hpr hcan => ?_, fun q h => ?_, hi.opened, fun q hq => ?_⟩
  · rw [hdue]
    exact hi.inNursery q h
  · rw [hdue]
    exact hi.pledged a st q ha hpr hcan
  · rw [hdue]
    exact hi.fresh q h
  · rw [hdue]
    exact hi.covered q hq

/-- The nursery is cancelled, while nothing is being adopted. -/
theorem cancel (hi : Delivery cov cs g) (hc : Custody g)
    (had : g.cancelling = false → g.adoptions = []) : Delivery cov cs g.cancel := by
  unfold Ledger.cancel
  split_ifs with hcan hex
  · exact hi
  · have hfalse : g.cancelling = false := by simpa using hcan
    have hcount : ∀ q, (g.tasks.map Callback.cancel).count (.cancel q) = g.tasks.count q := fun q =>
      List.count_map_of_injective _ _ (fun a b h => by cases h; rfl) _
    have hdue : ∀ q, { g with
        cancelling := true
        duties := g.duties ++ g.tasks.map Callback.cancel }.due cs q =
          g.due cs q + g.tasks.count q := by
      intro q
      simp only [Ledger.due, List.count_append, hcount]
      omega
    have hzero : ∀ q, g.held q ≤ 1 → 0 < g.pledged q → g.tasks.count q = 0 := by
      intro q hone hpos
      simp only [Ledger.held, Ledger.inNursery] at hone
      omega
    refine ⟨fun q h => ?_, fun a st q ha hp hst => ?_, fun q h => ?_, fun h => ?_, fun q hq => ?_⟩
    · have hin : 0 < g.inNursery q := h
      have hone := hc.once q
      have hd := hi.inNursery q hin
      rw [hdue, if_pos rfl]
      rw [hfalse, if_neg (by decide)] at hd
      rw [Ledger.inNursery, had hfalse, List.count_nil] at hin
      simp only [Ledger.held, Ledger.inNursery] at hone
      omega
    · rw [hdue, hzero q (hc.once q) (g.pledged_pos ha hp)]
      exact hi.pledged a st q ha hp hst
    · have hheld := (hc.fresh q h).1
      have hd := hi.fresh q h
      rw [hdue, hd]
      simp only [Ledger.held, Ledger.inNursery] at hheld
      omega
    · cases h
    · have := (hi.covered q hq).2.2.1
      rw [hfalse] at this
      cases this
  · have hfalse : g.cancelling = false := by simpa using hcan
    have hno : ∀ q, ¬ 0 < g.inNursery q := fun q h => hex (hi.opened hfalse q h)
    refine ⟨fun q h => absurd h (hno q), fun a st q ha hp hst => ?_, fun q h => ?_, fun h => ?_,
      fun q hq => ?_⟩
    · rw [Ledger.due, List.append_nil]
      exact hi.pledged a st q ha hp hst
    · rw [Ledger.due, List.append_nil]
      exact hi.fresh q h
    · cases h
    · have := (hi.covered q hq).2.2.1
      rw [hfalse] at this
      cases this

theorem storeError (hi : Delivery cov cs g) (hc : Custody g)
    (had : g.cancelling = false → g.adoptions = []) (err : Err) :
    Delivery cov cs (g.storeError err) := by
  have hset : Delivery cov cs { g with error := g.error.or (some err) } :=
    hi.of_same (fun _ => le_rfl) rfl rfl rfl (fun _ => rfl) fun _ _ h => h
  refine hset.cancel ?_ had
  exact hc.of_same rfl rfl rfl rfl rfl fun _ h => Or.inl h

theorem storeInNursery (hi : Delivery cov cs g) (hc : Custody g)
    (had : g.cancelling = false → g.adoptions = []) (out : Outcome Err) :
    Delivery cov cs (g.storeInNursery out) := by
  cases out with
  | error err => exact hi.storeError hc had err
  | join | cancel => exact hi

theorem storeInScope (hi : Delivery cov cs g) (hc : Custody g)
    (had : g.cancelling = false → g.adoptions = []) (out : Outcome Err) :
    Delivery cov cs (g.storeInScope out) := by
  cases out with
  | error err => exact hi.storeError hc had err
  | cancel => exact hi.cancel hc had
  | join => exact hi

/-- `adopt()` begins with a promise that has just been made, which it cancels if the nursery is. -/
theorem addPromise (hi : Delivery cov cs g) (hc : Custody g) (he : g.executor = true)
    (par : Parent) :
    Delivery cov (cs ++ (if g.cancelling then some g.nextId else none : Option ℕ).toList)
      (g.addPromise par) := by
  have hother : ∀ q, q ≠ g.nextId → (g.addPromise par).due
      (cs ++ (if g.cancelling then some g.nextId else none : Option ℕ).toList) q = g.due cs q :=
    fun q hq => g.due_append_ne cs g.cancelling hq
  refine ⟨fun q h => ?_, fun a st q ha hp hst => ?_, fun q h => ?_, fun _ _ _ => he, fun q hq => ?_⟩
  · have hin := Ledger.inNursery_push_adopt
      { g.setParent g.nextId none with nextId := g.nextId + 1 } g.nextId par q
    rw [Ledger.addPromise, hin] at h
    by_cases hq : q = g.nextId
    · have hdue := g.due_append cs g.cancelling g.nextId q
      rw [hi.fresh q hq.ge, Nat.zero_add] at hdue
      simp only [hq, and_true] at hdue ⊢
      exact hdue
    · rw [if_neg (Ne.symm hq), Nat.add_zero] at h
      rw [hother q hq]
      exact hi.inNursery q h
  · rw [hother q (hc.lt_of_held (Nat.add_pos_right _ (g.pledged_pos ha hp))).ne]
    exact hi.pledged a st q ha hp hst
  · have hlt : g.nextId < q := h
    rw [hother q hlt.ne']
    exact hi.fresh q hlt.le
  · obtain ⟨hlt, hzero, hcan, hone⟩ := hi.covered q hq
    exact ⟨hlt.trans (Nat.lt_succ_self _), hzero, hcan, (hother q hlt.ne).trans hone⟩

theorem newStart (hi : Delivery cov cs g) (hfresh : g.starters.lookup g.nextId = none)
    {st : Starter Err} (hst : st.promise = none) :
    Delivery cov cs ({ g with nextId := g.nextId + 1 }.setStarter g.nextId st) := by
  refine hi.of_frame (fun q h => h) rfl (fun b stb q hb hpb hcb => ?_) (fun q _ => ?_)
    (Nat.le_succ _) (fun _ => rfl) fun _ _ h => h
  · have hb' : (g.starters.insert g.nextId st).lookup b = some stb := hb
    rw [lookup_insert_eq] at hb'
    split_ifs at hb'
    · cases hb'
      rw [hst] at hpb
      cases hpb
    · exact ⟨b, stb, hb', hpb, hcb⟩
  · have h := count_insert_new (fun st => decide (st.promise = some q)) st hfresh
    simp only [hst, reduceCtorEq, decide_false, Bool.false_eq_true, if_false, Nat.add_zero] at h
    exact h.le

/-- A start awaiter makes a promise, which it cancels if it has been cancelled itself. -/
theorem startPending (hi : Delivery cov cs g) (hc : Custody g) {a n : ℕ} {st st' : Starter Err}
    (ha : g.starters.lookup a = some st) (hp : st.promise = none)
    (hp' : st'.promise = some g.nextId) (hcan : st'.cancelling = st.cancelling) :
    Delivery cov (cs ++ (if st.cancelling then some g.nextId else none : Option ℕ).toList)
      (({ g with pendingTaskCount := n, nextId := g.nextId + 1 }.setStarter a st').setParent
        g.nextId (some (.starter a))) := by
  set g' := ({ g with pendingTaskCount := n, nextId := g.nextId + 1 }.setStarter a st').setParent
    g.nextId (some (.starter a)) with hg'
  have hother : ∀ q, q ≠ g.nextId → g'.due
      (cs ++ (if st.cancelling then some g.nextId else none : Option ℕ).toList) q = g.due cs q :=
    fun q hq => g.due_append_ne cs st.cancelling hq
  refine ⟨fun q h => ?_, fun b stb q hb hpb hcb => ?_, fun q h => ?_, hi.opened, fun q hq => ?_⟩
  · have hin : 0 < g.inNursery q := h
    rw [hother q (hc.lt_of_held (Nat.add_pos_left hin _)).ne]
    exact hi.inNursery q hin
  · have hb' : (g.starters.insert a st').lookup b = some stb := hb
    rw [lookup_insert_eq] at hb'
    split_ifs at hb' with hba
    · cases hb'
      rw [hp'] at hpb
      cases hpb
      have hdue := g.due_append cs st.cancelling g.nextId g.nextId
      rw [hi.fresh _ le_rfl, ← hcan, hcb] at hdue
      rw [← hcan, hcb]
      exact hdue
    · rw [hother q (hc.lt_of_held (Nat.add_pos_right _ (g.pledged_pos hb' hpb))).ne]
      exact hi.pledged b stb q hb' hpb hcb
  · have hlt : g.nextId < q := h
    rw [hother q hlt.ne']
    exact hi.fresh q hlt.le
  · obtain ⟨hlt, hzero, hcov, hone⟩ := hi.covered q hq
    refine ⟨hlt.trans (Nat.lt_succ_self _), ?_, hcov, (hother q hlt.ne).trans hone⟩
    have hpl := g.pledged_setStarter ha st' q
    rw [hp, hp', hzero] at hpl
    simp only [reduceCtorEq, if_false, Option.some.injEq, hlt.ne'] at hpl
    exact hpl

/-- A start awaiter cancels the promise it holds. -/
theorem startCancel (hi : Delivery cov cs g) (hc : Custody g) {a p : ℕ} {st st' : Starter Err}
    (ha : g.starters.lookup a = some st) (hp : st.promise = some p)
    (hp' : st'.promise = st.promise) (hcan : st'.cancelling = true) :
    Delivery cov (cs ++ [p]) (g.setStarter a st') := by
  have hpos : 0 < g.pledged p := g.pledged_pos ha hp
  have hset : Delivery cov cs (g.setStarter a st') := hi.setStarter ha hp' fun h => by
    rw [hcan] at h
    cases h
  have hother : ∀ q, q ≠ p → (g.setStarter a st').due (cs ++ [p]) q = g.due cs q := by
    exact fun q hq => g.due_append_ne cs true hq
  refine ⟨fun q h => ?_, fun b stb q hb hpb hcb => ?_, fun q h => ?_, hi.opened, fun q hq => ?_⟩
  · have hq : q ≠ p := fun heq => by
      have hin : 0 < g.inNursery q := h
      have hone := hc.once q
      rw [Ledger.held, heq] at hone
      rw [heq] at hin
      omega
    rw [hother q hq]
    exact hi.inNursery q h
  · have hb' := hb
    rw [Ledger.setStarter, lookup_insert_eq] at hb'
    split_ifs at hb' with hba
    · cases hb'
      rw [hcan] at hcb
      cases hcb
    · have hq : q ≠ p := fun heq => by
        have hone := hc.once p
        exact hba (Ledger.pledged_unique ((Nat.le_add_left _ _).trans hone) hb' (heq ▸ hpb) ha hp)
      rw [hother q hq]
      exact hi.pledged b stb q hb' hpb hcb
  · have hlt := hc.lt_of_held (Nat.add_pos_right (g.inNursery p) hpos)
    have hle : g.nextId ≤ q := h
    rw [hother q (by omega)]
    exact hi.fresh q h
  · obtain ⟨hlt, hzero, hcov, hone⟩ := hset.covered q hq
    have hzero' := (hi.covered q hq).2.1
    have hqp : q ≠ p := fun heq => by
      rw [heq] at hzero'
      omega
    exact ⟨hlt, hzero, hcov, (hother q hqp).trans (hi.covered q hq).2.2.2⟩

/-- A start awaiter that has not been cancelled hands its promise over to `adopt()`, which cancels
it if the nursery is. -/
theorem handOff (hi : Delivery cov cs g) (hc : Custody g) {a p n : ℕ} {st st' : Starter Err}
    (ha : g.starters.lookup a = some st) (hp : st.promise = some p) (hcan : st.cancelling = false)
    (hp' : st'.promise = none) (he : g.executor = true) :
    Delivery cov (cs ++ (if g.cancelling then some p else none : Option ℕ).toList)
      ((({ g with pendingTaskCount := n }.setStarter a st').setParent p (some .nursery)).push
        (.adopt p (.starter a))) := by
  set g' := (({ g with pendingTaskCount := n }.setStarter a st').setParent p (some .nursery)).push
    (.adopt p (.starter a)) with hg'
  have hpos : 0 < g.pledged p := g.pledged_pos ha hp
  have hother : ∀ q, q ≠ p → g'.due
      (cs ++ (if g.cancelling then some p else none : Option ℕ).toList) q = g.due cs q :=
    fun q hq => g.due_append_ne cs g.cancelling hq
  have hpl : ∀ q, g'.pledged q + (if p = q then 1 else 0) = g.pledged q := fun q => by
    have h := g.pledged_setStarter ha st' q
    rw [hp, hp'] at h
    simp only [reduceCtorEq, if_false, Option.some.injEq] at h
    exact h
  refine ⟨fun q h => ?_, fun b stb q hb hpb hcb => ?_, fun q h => ?_, fun _ _ _ => he, fun q hq => ?_⟩
  · by_cases hq : q = p
    · have hdue := g.due_append cs g.cancelling p q
      rw [hq, hi.pledged a st p ha hp hcan, Nat.zero_add] at hdue
      simp only [and_true] at hdue
      rw [hq]
      exact hdue
    · have hin := Ledger.inNursery_push_adopt (({ g with pendingTaskCount := n }.setStarter a
        st').setParent p (some .nursery)) p (.starter a) q
      rw [hg', hin, if_neg (Ne.symm hq)] at h
      rw [hother q hq]
      exact hi.inNursery q h
  · have hb' : (g.starters.insert a st').lookup b = some stb := hb
    rw [lookup_insert_eq] at hb'
    split_ifs at hb' with hba
    · cases hb'
      rw [hp'] at hpb
      cases hpb
    · have hq : q ≠ p := fun heq => by
        have hone := hc.once p
        exact hba (Ledger.pledged_unique ((Nat.le_add_left _ _).trans hone) hb' (heq ▸ hpb) ha hp)
      rw [hother q hq]
      exact hi.pledged b stb q hb' hpb hcb
  · have hlt := hc.lt_of_held (Nat.add_pos_right (g.inNursery p) hpos)
    have hle : g.nextId ≤ q := h
    rw [hother q (by omega)]
    exact hi.fresh q h
  · obtain ⟨hlt, hzero, hcov, hone⟩ := hi.covered q hq
    have hqp : q ≠ p := fun heq => by
      rw [heq] at hzero
      omega
    have := hpl q
    exact ⟨hlt, by omega, hcov, (hother q hqp).trans hone⟩

/-- `adopt()` links the promise. -/
theorem adopted (hi : Delivery cov cs g) (hc : Custody g) {p : ℕ} {par : Parent} {fs : List Frame}
    (n : UInt32) (hfs : g.calls = .adopt p par :: fs) :
    Delivery cov cs { g with calls := fs, tasks := g.tasks.erase p ++ [p], taskCount := n } :=
  hi.of_same (fun q => (Ledger.inNursery_adopted n hfs (hc.not_linked hfs) q).le) rfl rfl rfl
    (fun _ => rfl) fun _ _ h => h

theorem setParent (hi : Delivery cov cs g) (p : ℕ) (par : Option Parent) :
    Delivery cov cs (g.setParent p par) :=
  hi.of_same (fun _ => le_rfl) rfl rfl rfl (fun _ => rfl) fun _ _ h => h

theorem finish (hi : Delivery cov cs g) (p : ℕ) (par : Parent) :
    Delivery cov cs (g.finish p par) := (hi.setParent p none).push rfl

/-- A task is taken off the list. -/
theorem eraseTasks (hi : Delivery cov cs g) (p : ℕ) :
    Delivery cov cs { g with tasks := g.tasks.erase p } :=
  hi.of_same (fun _ => Nat.add_le_add_right (List.Sublist.count_le _ List.erase_sublist) _) rfl rfl
    rfl (fun _ => rfl) fun _ _ h => h

theorem destroy (hi : Delivery cov cs g) (p : ℕ) : Delivery cov cs (g.destroy p) :=
  (hi.eraseTasks p).of_same (fun _ => le_rfl) rfl rfl rfl (fun _ => rfl) fun _ _ h => h

theorem eraseTask (hi : Delivery cov cs g) (p : ℕ) : Delivery cov cs (g.eraseTask p) := by
  have hset : Delivery cov cs { g with tasks := g.tasks.erase p, taskCount := g.taskCount - 1 } :=
    (hi.eraseTasks p).of_same (fun _ => le_rfl) rfl rfl rfl (fun _ => rfl) fun _ _ h => h
  exact hset.submit (by simp)

theorem eraseStarter (hi : Delivery cov cs g) {a : ℕ} {st : Starter Err}
    (ha : g.starters.lookup a = some st) :
    Delivery cov cs { g with starters := g.starters.erase a } := by
  refine hi.of_frame (fun q h => h) rfl (fun b stb q hb hpb hcb => ?_) (fun q _ => ?_) le_rfl
    (fun q => rfl) fun _ _ h => h
  · exact ⟨b, stb, lookup_of_lookup_erase hb, hpb, hcb⟩
  · have hpl := g.pledged_erase ha q
    simp only [Ledger.pledged] at *
    omega

/-- The nursery is closed, with nothing left in it. -/
theorem close (hi : Delivery cov cs g) (hno : g.cancelling = false → ∀ q, g.inNursery q = 0) :
    Delivery cov cs { g with executor := false } := by
  refine hi.of_same (fun _ => le_rfl) rfl rfl rfl (fun _ => rfl) fun hc hex => ?_
  obtain ⟨q, hq⟩ := hex
  exact absurd (hno hc q) (Nat.pos_iff_ne_zero.1 hq)

theorem closeIfFinished (hi : Delivery cov cs g) (had : g.cancelling = false → g.adoptions = []) :
    Delivery cov cs g.closeIfFinished := by
  unfold Ledger.closeIfFinished
  split_ifs with hf
  · simp only [Ledger.finished, Bool.and_eq_true, List.isEmpty_iff] at hf
    have hclose := hi.close fun hc => Ledger.inNursery_eq_zero hf.1.1 (had hc)
    have hset : Delivery cov cs { g with parent := false, executor := false } :=
      hclose.of_same (fun _ => le_rfl) rfl rfl rfl (fun _ => rfl) fun _ _ h => h
    exact hset.push rfl
  · exact hi

end Delivery

/-- The step lemma. -/
theorem Delivery.step {cov : Set ℕ} {cs : List ℕ} {a : Action Err} (hi : Delivery cov cs s.ledger)
    (hb : Books s) (h : step s a = .ok t) :
    Delivery cov (cs ++ (cancels s a).toList) t.ledger := by
  have hnone : ∀ {g : Ledger Err}, cancels s a = none → Delivery cov cs g →
      Delivery cov (cs ++ (cancels s a).toList) g := by
    intro g ha hg
    rw [ha, Option.toList_none, List.append_nil]
    exact hg
  have had : a ≠ .next → s.cancelling = false → s.ledger.adoptions = [] :=
    hb.prompt.adoptions_eq_nil h
  have hempty : a ≠ .next → s.tasks = [] → s.cancelling = false → ∀ q, s.ledger.inNursery q = 0 :=
    fun ha hnil hc => Ledger.inNursery_eq_zero hnil (had ha hc)
  have hentry := entry_of_step h
  generalize t.ledger = g at hentry
  cases hentry with
  | openScope =>
    exact hnone rfl (hi.of_same (fun _ => le_rfl) rfl rfl rfl (fun _ => rfl) fun _ _ _ => rfl)
  | bodyPromise he | start he => exact hi.addPromise hb.custody he _
  | bodyDone =>
    have hpush : Delivery cov cs (s.ledger.push (.continuation .scope none)) := hi.push rfl
    exact hnone rfl (hpush.storeInScope (hb.custody.push rfl) (had (by simp)) _)
  | joinClosed | closeEmpty | await | resume | cancelRefused | ignoreInStarter | run =>
    exact hnone rfl hi
  | joinEmpty _ hnil | asyncCloseEmpty hnil =>
    exact hnone rfl (hi.close (hempty (by simp) hnil))
  | join => exact hnone rfl (hi.of_same (fun _ => le_rfl) rfl rfl rfl (fun _ => rfl) fun _ _ h => h)
  | asyncClose =>
    have hset : Delivery cov cs { s.ledger with parent := true, joined := true } :=
      hi.of_same (fun _ => le_rfl) rfl rfl rfl (fun _ => rfl) fun _ _ h => h
    refine hnone rfl (hset.cancel ?_ (had (by simp)))
    exact hb.custody.of_same rfl rfl rfl rfl rfl fun _ h => Or.inl h
  | close => exact hnone rfl (hi.submit (by simp))
  | closed hst hnil =>
    refine hnone rfl (hi.close fun hc => Ledger.inNursery_eq_zero hnil ?_)
    have hbelow := hb.prompt.adoptions_below hst hc
    simpa [Ledger.adoptions, State.ledger, hst, Frame.own] using hbelow
  | cancel => exact hnone rfl (hi.cancel hb.custody (had (by simp)))
  | startDone => exact hnone rfl (hi.storeInNursery hb.custody (had (by simp)) _)
  | newStart =>
    refine hnone rfl (hi.newStart ?_ rfl)
    cases hlook : s.starters.lookup s.nextId with
    | none => exact hlook
    | some st => exact absurd (hb.census.fresh _ _ hlook) (lt_irrefl _)
  | startEarlyCancel ha => exact hnone rfl (hi.setStarter ha rfl fun h => Bool.noConfusion h)
  | startPending ha hp hn =>
    simp only [cancels, ha]
    exact hi.startPending hb.custody ha hp rfl rfl
  | startCancel ha hp hh hc =>
    rename_i b p st
    have hset : Delivery cov (cs ++ [p]) (s.ledger.setStarter b { st with cancelling := true }) :=
      hi.startCancel hb.custody ha hp rfl rfl
    have hcancels : cancels s (.startCancel b) = some p := by simp only [cancels, ha, hp]
    rw [hcancels]
    exact hset
  | startCancelHanded ha hp => exact hnone (by simp only [cancels, ha, hp]) hi
  | startedCancelling ha hp hc =>
    refine hnone ?_ (hi.setStarter ha rfl id)
    simp only [cancels, ha, hc, reduceCtorEq, and_false, if_false]
  | handOff ha hp hc hn hpar he =>
    simp only [cancels, ha, hp, hc, and_true]
    exact hi.handOff hb.custody ha hp hc rfl he
  | dropStart ha => exact hnone rfl ((hi.eraseStarter ha).destroy _)
  | dropStartHanded ha => exact hnone rfl (hi.eraseStarter ha)
  | awaitCancelled | resumeCancelled | cancelConfirmed =>
    exact hnone rfl ((hi.cancelled _).finish _ _)
  | storeInNursery => exact hnone rfl (hi.storeInNursery hb.custody (had (by simp)) _)
  | storeInScope => exact hnone rfl (hi.storeInScope hb.custody (had (by simp)) _)
  | storeInStarter _ ha => exact hnone rfl (hi.setStarter ha rfl id)
  | finalSuspend => exact hnone rfl (hi.finish _ _)
  | cancelTask hmem => exact hi.deliver (List.mem_filter.2 ⟨hmem, rfl⟩)
  | destroyTask => exact hnone rfl ((hi.unqueue (by simp)).destroy _)
  | resumeParent => exact hnone rfl (hi.unqueue (by simp))
  | cancelNursery =>
    exact hnone rfl ((hi.unqueue (by simp)).cancel (hb.custody.unqueue _) (had (by simp)))
  | startContinuation hst ha =>
    rename_i b q below st
    have hset : Delivery cov cs { s.ledger with
        calls := below.filter Frame.own
        pendingTaskCount := if st.nursery then s.pendingTaskCount - 1 else s.pendingTaskCount } :=
      (hi.pop (calls_cons hst rfl) rfl).of_same (fun _ => le_rfl) rfl rfl rfl (fun _ => rfl)
        fun _ _ h => h
    exact hnone rfl (hset.setStarter ha rfl id)
  | continuation hst =>
    refine hnone rfl (Delivery.closeIfFinished ?_ (hb.prompt.adoptions_below hst))
    exact (hi.pop (calls_cons hst rfl) rfl).eraseTask _
  | continuationBody hst => exact hnone rfl (hi.pop (calls_cons hst rfl) rfl)
  | continuationLast hst hf =>
    simp only [Ledger.finished, Bool.and_eq_true, List.isEmpty_iff] at hf
    have hclose := (hi.pop (calls_cons hst rfl) rfl).close fun hc =>
      Ledger.inNursery_eq_zero hf.1.1 (hb.prompt.adoptions_below hst hc)
    refine hnone rfl (Delivery.submit ?_ (by simp))
    exact hclose.of_same (fun _ => le_rfl) rfl rfl rfl (fun _ => rfl) fun _ _ h => h
  | adoptedStarter hst ha =>
    exact hnone rfl ((hi.adopted hb.custody _ (calls_cons hst rfl)).setStarter ha rfl id)
  | adopted hst => exact hnone rfl ((hi.adopted hb.custody _ (calls_cons hst rfl)).setParent _ _)
  | runSoonReturns => exact hnone rfl hi
  | submitResume hst =>
    have hpop := hi.pop (calls_cons hst rfl) rfl
    refine hnone rfl (Delivery.submit ?_ (by simp))
    exact hpop.of_same (fun _ => le_rfl) rfl rfl rfl (fun _ => rfl) fun _ _ h => h

/-- The tasks of a nursery that is being cancelled are covered. -/
theorem Delivery.cover {cov : Set ℕ} {cs : List ℕ} (hi : Delivery cov cs g) (hc : Custody g) :
    Delivery (cov ∪ {p | g.cancelling = true ∧ p ∈ g.tasks}) cs g := by
  refine ⟨hi.inNursery, hi.pledged, hi.fresh, hi.opened, fun q hq => ?_⟩
  rcases hq with hq | ⟨hcan, hmem⟩
  · exact hi.covered q hq
  · have hin : 0 < g.inNursery q := Nat.add_pos_left (List.count_pos_iff.2 hmem) _
    have hone := hc.once q
    have hdue := hi.inNursery q hin
    rw [hcan, if_pos rfl] at hdue
    rw [Ledger.held] at hone
    exact ⟨hc.lt_of_held (Nat.add_pos_left hin _), by omega, hcan, hdue⟩

/-- The promises that were tasks of the nursery while it was being cancelled. -/
def everCancelling (l : List (State Err × Action Err)) : Set ℕ :=
  {p | ∃ x ∈ l, x.1.cancelling = true ∧ p ∈ x.1.tasks}

theorem everCancelling_concat (l : List (State Err × Action Err)) (s : State Err) (a : Action Err) :
    everCancelling (l ++ [(s, a)]) =
      everCancelling l ∪ {p | s.cancelling = true ∧ p ∈ s.tasks} := by
  ext p
  simp [everCancelling, or_and_right, exists_or]

/-- The run lemma. -/
theorem delivery_of_run {kind : Kind} {ok : State Err → Action Err → Prop}
    {l : List (State Err × Action Err)} (hr : Run step ok (.init kind) l s) :
    Delivery (everCancelling l) (events cancels l) s.ledger := by
  refine hr.invariant_of (I := fun l s => Delivery (everCancelling l) (events cancels l) s.ledger)
    (J := fun _ s => Books s) (fun _ _ hr => books_of_reach hr.reach) ?_ ?_
  · refine ⟨fun q h => ?_, fun a st q h => ?_, fun q h => rfl, fun _ q h => ?_, fun q hq => ?_⟩
    · cases h
    · cases h
    · cases h
    · obtain ⟨x, hx, -⟩ := hq
      cases hx
  · intro l s a t hb hi _ h
    rw [events_concat, everCancelling_concat]
    exact (hi.cover hb.custody).step hb h

/-! ### The result -/

@[simp] theorem Ledger.cancelling_cancel (g : Ledger Err) : g.cancel.cancelling = true := by
  unfold Ledger.cancel
  split_ifs with h
  · exact h
  · rfl
  · rfl

/-- A nursery that is given an error is cancelled. -/
theorem cancelling_of_stored {a : Action Err} (h : Entry s a g) {err : Err}
    (hs : stored s a = some err) : g.cancelling = true := by
  cases h with
  | bodyDone =>
    rename_i out
    cases out with
    | error err => exact Ledger.cancelling_cancel _
    | join | cancel => cases hs
  | startDone =>
    rename_i out
    cases out with
    | error err => exact Ledger.cancelling_cancel _
    | join | cancel => cases hs
  | storeInNursery =>
    rename_i p out _
    cases out with
    | error err => exact Ledger.cancelling_cancel _
    | join | cancel => cases hs
  | storeInScope =>
    rename_i p out _
    cases out with
    | error err => exact Ledger.cancelling_cancel _
    | join | cancel => cases hs
  | storeInStarter hp => simp [stored, hp] at hs
  | ignoreInStarter _ hout =>
    rename_i p b out _
    cases out with
    | error err => exact absurd rfl (hout err)
    | join | cancel => cases hs
  | _ => cases hs

/-- What is known of the errors of a run. -/
theorem errors_of_run {kind : Kind} {ok : State Err → Action Err → Prop}
    {l : List (State Err × Action Err)} (hr : Run step ok (.init kind) l s) :
    s.error = (events stored l).head? ∧ (events stored l ≠ [] → s.cancelling = true) ∧
    ∀ x ∈ l, x.1.cancelling = true ∨ x.2 = .cancel → s.cancelling = true := by
  refine hr.invariant (I := fun l s => s.error = (events stored l).head? ∧
    (events stored l ≠ [] → s.cancelling = true) ∧
    ∀ x ∈ l, x.1.cancelling = true ∨ x.2 = .cancel → s.cancelling = true)
    ⟨rfl, fun h => absurd rfl h, by simp⟩ ?_
  rintro l s a t ⟨herr, hstored, hcan⟩ - h
  have hentry := entry_of_step h
  have hmono : s.cancelling = true → t.cancelling = true := cancelling_of_entry hentry
  refine ⟨?_, fun hne => ?_, fun x hx hor => ?_⟩
  · have herr' : t.error = s.error.or (stored s a) := error_of_entry hentry
    rw [herr', herr, events_concat]
    cases events stored l <;> cases stored s a <;> rfl
  · rw [events_concat] at hne
    by_cases hs : stored s a = none
    · rw [hs, Option.toList_none, List.append_nil] at hne
      exact hmono (hstored hne)
    · obtain ⟨err, hs⟩ := Option.ne_none_iff_exists'.1 hs
      exact cancelling_of_stored hentry hs
  · rcases List.mem_append.1 hx with hx | hx
    · exact hmono (hcan x hx hor)
    · cases List.mem_singleton.1 hx
      rcases hor with hc | ha
      · exact hmono hc
      · subst ha
        have hg : t.ledger.cancelling = true := by
          generalize t.ledger = g at hentry
          cases hentry with
          | cancel => exact Ledger.cancelling_cancel _
        exact hg

/-- Two tasks of a scoped nursery; one fails while the other is suspended, which is cancelled and
then fails, too. -/
def twoFail : List (Action ℕ) :=
  [.openScope, .start .promise, .next, .callback (.run 0), .await 0 ⟨false, false, false⟩,
    .start .promise, .next, .callback (.run 1), .storeResult 1 (.error 5), .callback (.cancel 0),
    .cancelReturns false, .resume 0 true, .next, .callback (.run 0), .storeResult 0 (.error 6)]

end Corral.Nursery
