import Corral.Wait.Steps
import Corral.Wait.Protocol

/-!
# What the children of a mux report

A child reports a value or an error once, when its `await_resume()` comes back or when its
`await_suspend()` throws.  The runs are those in which the mux is not cancelled by its parent
(`Uncancelled`).

* `reported`: what is reported in a step;
* `Tally`: how the states of the children, the values and the error of the mux follow from the
  reports `R` of a run, once the children are bound to the mux;
* the lemmas say that the functions of the mux keep it.
-/

namespace Corral.Wait

open ActionMachine AwaiterStateChecker
open Mux (HelperState Cause)

variable {n : ℕ} {V Err : Type*} {m : Kind n} {s t u : State n V Err}
  {R : List (Fin n × Except Err V)}

/-- The parent does not cancel the mux. -/
def Uncancelled (_ : State n V Err) : Action n V Err → Prop
  | .awaitEarlyCancel => False
  | .awaitCancel => False
  | _ => True

instance (s : State n V Err) : (a : Action n V Err) → Decidable (Uncancelled s a)
  | .awaitEarlyCancel | .awaitCancel => isFalse id
  | .next _ | .becomesReady _ | .resumes _ _ | .suspendReturns | .suspendThrows _
  | .earlyCancelReturns _ | .cancelReturns _ | .resumeReturns _ | .parentReturns | .awaitReady
  | .awaitSetExecutor | .awaitSuspend | .awaitMustResume _ | .awaitResume _ => isTrue trivial

/-- The report of a child in this step. -/
def reported (s : State n V Err) (a : Action n V Err) : Option (Fin n × Except Err V) :=
  match a, s.stack with
  | .resumeReturns r, .awaitResume j :: _ => if h : j < n then some (⟨j, h⟩, r) else none
  | .suspendThrows e, .awaitSuspend j :: _ => if h : j < n then some (⟨j, h⟩, .error e) else none
  | _, _ => none

/-- The error of a report. -/
def errorOf : Fin n × Except Err V → Option Err
  | (_, .ok _) => none
  | (_, .error e) => some e

/-- The error that has been reported first. -/
def firstError (R : List (Fin n × Except Err V)) : Option Err := R.findSome? errorOf

theorem firstError_append (R : List (Fin n × Except Err V)) (x : Fin n × Except Err V) :
    firstError (R ++ [x]) = (firstError R).or (errorOf x) := by
  simp [firstError, List.findSome?_append]

/-- A report goes together with the state of its child. -/
def Agrees (s : State n V Err) (j : Fin n) : Except Err V → Prop
  | .ok v => s.child j = .succeeded ∧ s.storage j = some v
  | .error _ => s.child j = .failed

/-- The child has a result. -/
def finished : HelperState → Bool
  | .succeeded => true
  | .failed => true
  | _ => false

/-- The child has been asked to cancel itself. -/
def disturbed : HelperState → Bool
  | .cancelled => true
  | .cancelling => true
  | .cancellationPending => true
  | _ => false

/-- The child has not been suspended. -/
def unstarted : HelperState → Bool
  | .notStarted => true
  | .cancellationPending => true
  | .cancelled => true
  | _ => false

/-- The frames of a cancellation. -/
def Frame.cancels : Frame → Bool
  | .cancelLoop _ _ _ => true
  | .earlyCancel _ => true
  | .awaitCancel _ => true
  | _ => false

/-- The loop of `handleResumeWithoutSuspend()`. -/
def Frame.reports : Frame → Bool
  | .reportLoop _ _ => true
  | _ => false

/-- The reason for a cancellation of the children. -/
def Reason (m : Kind n) (s : State n V Err) : Prop :=
  if m.combiner = .anyOf then ∃ i, finished (s.child i) = true else s.error.isSome = true

/-- The children that are not ready may be skipped, and the mux does not need them. -/
def Willing (m : Kind n) (s : State n V Err) : Prop :=
  ∀ j, s.child j = .notStarted → s.ready j = true ∨ m.combiner = .anyOf ∧ m.skippable j = true

structure Tally (m : Kind n) (R : List (Fin n × Except Err V)) (s : State n V Err) : Prop where
  bound : s.bound = true
  checker : s.checker.state = .running ∨ s.checker.state = .ready ∨ s.checker.state = .done
  bottom : Bottom s.stack
  asking : ∀ j : Fin n, .earlyCancel j ∈ s.stack → unstarted (s.child j) = true
  taking : ∀ j : Fin n, .awaitResume j ∈ s.stack → s.child j = .succeeded ∧ ∀ r, (j, r) ∉ R
  once : ∀ j : Fin n, s.stack.count (.awaitResume j) ≤ 1
  holding : ∀ j, holds (s.events j) = true → s.child j = .running ∨ s.child j = .cancelling
  failed : ∀ j, s.child j = .failed → ∃ e, (j, .error e) ∈ R
  value : ∀ j : Fin n, s.child j = .succeeded →
    .awaitResume j ∈ s.stack ∨ ∃ v, (j, .ok v) ∈ R
  agrees : ∀ j r, (j, r) ∈ R → Agrees s j r
  error : s.error = firstError R
  reason : (∃ j, disturbed (s.child j) = true) ∨ (∃ f ∈ s.stack, f.cancels = true) → Reason m s
  some : (∃ f ∈ s.stack, f.reports = true) → ∃ i, finished (s.child i) = true
  willing : (∃ f ∈ s.stack, f.reports = true) → Willing m s
  unsuspended : (∃ f ∈ s.stack, f.reports = true) → s.parent = false

/-- The fields that the tally is about. -/
theorem Tally.congr (ht : Tally m R s) (hb : u.bound = s.bound) (hc : u.checker = s.checker)
    (hst : u.stack = s.stack) (hch : u.child = s.child) (hev : u.events = s.events)
    (hsto : u.storage = s.storage) (herr : u.error = s.error) (hpar : u.parent = s.parent)
    (hr : ∀ j, s.ready j = true → u.ready j = true) : Tally m R u := by
  refine ⟨?_, ?_, ?_, ?_, ?_, ?_, ?_, ?_, ?_, ?_, ?_, ?_, ?_, ?_, ?_⟩
  · rw [hb]
    exact ht.bound
  · rw [hc]
    exact ht.checker
  · rw [hst]
    exact ht.bottom
  · rw [hst, hch]
    exact ht.asking
  · rw [hst, hch]
    exact ht.taking
  · rw [hst]
    exact ht.once
  · rw [hev, hch]
    exact ht.holding
  · rw [hch]
    exact ht.failed
  · rw [hst, hch]
    exact ht.value
  · intro j r hjr
    have h := ht.agrees j r hjr
    cases r with
    | ok v => exact ⟨by rw [hch]; exact h.1, by rw [hsto]; exact h.2⟩
    | error e => exact (congrFun hch j).trans h
  · rw [herr]
    exact ht.error
  · rw [hst, hch]
    unfold Reason
    rw [hch, herr]
    exact ht.reason
  · rw [hst, hch]
    exact ht.some
  · rw [hst]
    intro h j hj
    rw [hch] at hj
    exact (ht.willing h j hj).imp_left (hr j)
  · rw [hst, hpar]
    exact ht.unsuspended

/-! ### The stack -/

/-- A call begins, other than `await_resume()`. -/
theorem Tally.enter {f : Frame} (ht : Tally m R s) (hf : ∀ j, f ≠ .awaitResume j)
    (hloop : f.isLoop = true → s.stack = [])
    (hask : ∀ j : Fin n, f = .earlyCancel j → unstarted (s.child j) = true)
    (hreason : f.cancels = true → Reason m s) (hrep : f.reports = false) : Tally m R (s.enter f) where
  bound := ht.bound
  checker := ht.checker
  bottom := ⟨hloop, ht.bottom⟩
  asking := fun j h => by
    rcases List.mem_cons.1 h with h | h
    · exact hask j h.symm
    · exact ht.asking j h
  taking := fun j h => by
    rcases List.mem_cons.1 h with h | h
    · exact absurd h.symm (hf j)
    · exact ht.taking j h
  once := fun j => by
    show (f :: s.stack).count _ ≤ 1
    rw [List.count_cons_of_ne (hf j)]
    exact ht.once j
  holding := ht.holding
  failed := ht.failed
  value := fun j h => (ht.value j h).imp_left fun h => List.mem_cons_of_mem f h
  agrees := ht.agrees
  error := ht.error
  reason := by
    rintro (h | ⟨g, hg, hc⟩)
    · exact ht.reason (.inl h)
    · rcases List.mem_cons.1 hg with rfl | hg
      · exact hreason hc
      · exact ht.reason (.inr ⟨g, hg, hc⟩)
  some := by
    rintro ⟨g, hg, hr⟩
    rcases List.mem_cons.1 hg with rfl | hg
    · rw [hrep] at hr
      cases hr
    · exact ht.some ⟨g, hg, hr⟩
  willing := by
    rintro ⟨g, hg, hr⟩
    rcases List.mem_cons.1 hg with rfl | hg
    · rw [hrep] at hr
      cases hr
    · exact ht.willing ⟨g, hg, hr⟩
  unsuspended := by
    rintro ⟨g, hg, hr⟩
    rcases List.mem_cons.1 hg with rfl | hg
    · rw [hrep] at hr
      cases hr
    · exact ht.unsuspended ⟨g, hg, hr⟩

/-- A call ends, other than `await_resume()`. -/
theorem Tally.pop {f : Frame} {below : List Frame} (ht : Tally m R s) (hst : s.stack = f :: below)
    (hf : ∀ j, f ≠ .awaitResume j) : Tally m R { s with stack := below } := by
  have hsub : ∀ {g : Frame}, g ∈ below → g ∈ s.stack := fun hg => hst ▸ List.mem_cons_of_mem f hg
  refine ⟨ht.bound, ht.checker, ?_, fun j h => ht.asking j (hsub h), fun j h => ht.taking j (hsub h),
    fun j => ?_, ht.holding, ht.failed, fun j h => ?_, ht.agrees, ht.error, ?_, ?_, ?_, ?_⟩
  · have hb := ht.bottom
    rw [hst] at hb
    exact hb.2
  · have hone := ht.once j
    rw [hst, List.count_cons_of_ne (hf j)] at hone
    exact hone
  · rcases ht.value j h with hmem | hv
    · rw [hst] at hmem
      rcases List.mem_cons.1 hmem with hmem | hmem
      · exact absurd hmem.symm (hf j)
      · exact .inl hmem
    · exact .inr hv
  · rintro (h | ⟨g, hg, hc⟩)
    · exact ht.reason (.inl h)
    · exact ht.reason (.inr ⟨g, hsub hg, hc⟩)
  · rintro ⟨g, hg, hr⟩
    exact ht.some ⟨g, hsub hg, hr⟩
  · rintro ⟨g, hg, hr⟩
    exact ht.willing ⟨g, hsub hg, hr⟩
  · rintro ⟨g, hg, hr⟩
    exact ht.unsuspended ⟨g, hsub hg, hr⟩

/-- A frame is replaced by one that is like it. -/
theorem Tally.swap {f g : Frame} {below : List Frame} (ht : Tally m R s)
    (hst : s.stack = f :: below) (hf : ∀ j, f ≠ .awaitResume j)
    (hg : ∀ j, g ≠ .awaitResume j ∧ g ≠ .earlyCancel j) (hloop : g.isLoop = f.isLoop)
    (hcan : g.cancels = f.cancels) (hrep : g.reports = f.reports) :
    Tally m R { s with stack := g :: below } := by
  have hpop := ht.pop hst hf
  have hmem : ∀ {p : Frame → Bool}, p g = p f → (∃ x ∈ g :: below, p x = true) →
      ∃ x ∈ s.stack, p x = true := by
    rintro p hp ⟨x, hx, h⟩
    rcases List.mem_cons.1 hx with rfl | hx
    · exact ⟨f, by simp [hst], hp ▸ h⟩
    · exact ⟨x, by simp [hst, hx], h⟩
  refine ⟨ht.bound, ht.checker, ⟨fun h => ?_, hpop.bottom⟩, fun j h => ?_, fun j h => ?_, fun j => ?_,
    ht.holding, ht.failed, fun j h => ?_, ht.agrees, ht.error, fun h => ?_,
    fun h => ht.some (hmem hrep h), fun h => ht.willing (hmem hrep h),
    fun h => ht.unsuspended (hmem hrep h)⟩
  · have hb := ht.bottom
    rw [hst] at hb
    exact hb.1 (hloop ▸ h)
  · rcases List.mem_cons.1 h with h | h
    · exact absurd h.symm (hg j).2
    · exact hpop.asking j h
  · rcases List.mem_cons.1 h with h | h
    · exact absurd h.symm (hg j).1
    · exact hpop.taking j h
  · show (g :: below).count _ ≤ 1
    rw [List.count_cons_of_ne (hg j).1]
    exact hpop.once j
  · exact (hpop.value j h).imp_left fun h => List.mem_cons_of_mem g h
  · exact ht.reason (h.imp_right (hmem hcan))

/-! ### The children -/

/-- A child that has its handle neither waits to be started nor has a result. -/
theorem Tally.not_holds {j : Fin n} (ht : Tally m R s)
    (hj : s.child j ≠ .running ∧ s.child j ≠ .cancelling) : holds (s.events j) = false := by
  cases h : holds (s.events j) with
  | false => rfl
  | true => exact absurd (ht.holding j h) (by simp [hj.1, hj.2])

theorem holds_append {l : List Event} {e : Event} (hl : holds l = false) (he : e ≠ .suspend) :
    holds (l ++ [e]) = false := by
  cases e <;> simp [holds] at hl he ⊢ <;> tauto

theorem holds_resumed (l : List Event) : holds (l ++ [.resumed]) = false := by simp [holds]

theorem holds_confirmed (l : List Event) : holds (l ++ [.confirmed]) = false := by simp [holds]

theorem holds_threw (l : List Event) : holds (l ++ [.threw]) = false := by simp [holds]

/-- A child without a result has reported nothing. -/
theorem Tally.no_report {j : Fin n} (ht : Tally m R s) (hj : finished (s.child j) = false)
    (r : Except Err V) : (j, r) ∉ R := by
  intro hmem
  have h := ht.agrees j r hmem
  cases r with
  | ok v => rw [h.1] at hj; cases hj
  | error e =>
    have h' : s.child j = .failed := h
    rw [h'] at hj
    cases hj

/-- A child without a result is not being asked for it. -/
theorem Tally.not_taking {j : Fin n} (ht : Tally m R s) (hj : finished (s.child j) = false) :
    .awaitResume (j : ℕ) ∉ s.stack := by
  intro hmem
  rw [(ht.taking j hmem).1] at hj
  cases hj

/-- The reason stays, if the results do. -/
theorem Reason.mono (h : Reason m s)
    (hfin : ∀ i, finished (s.child i) = true → finished (u.child i) = true)
    (herr : s.error.isSome = true → u.error.isSome = true) : Reason m u := by
  unfold Reason at h ⊢
  split_ifs at h ⊢ with hc
  · obtain ⟨i, hi⟩ := h
    exact ⟨i, hfin i hi⟩
  · exact herr h

/-- What becomes of one child leaves the results of the others. -/
theorem finished_update {j : Fin n} {st : HelperState} {c : Fin n → HelperState}
    (hj : finished (c j) = true → finished st = true) (i : Fin n) (hi : finished (c i) = true) :
    finished (Function.update c j st i) = true := by
  by_cases h : i = j
  · subst h
    simpa using hj hi
  · simpa [h] using hi

/-- A child without a result is in another state, also without one. -/
theorem Tally.move {j : Fin n} {st : HelperState} {l : List Event} (ht : Tally m R s)
    (hj : finished (s.child j) = false) (hst : finished st = false)
    (hnew : st = .notStarted → s.child j = .notStarted)
    (hask : .earlyCancel (j : ℕ) ∈ s.stack → unstarted st = true)
    (hhold : holds l = true → st = .running ∨ st = .cancelling)
    (hdis : disturbed st = true → Reason m s) : Tally m R (s.move j st l) := by
  have hch : ∀ i, i ≠ j → (s.move j st l).child i = s.child i :=
    fun i hi => Function.update_of_ne hi _ _
  have hev : ∀ i, i ≠ j → (s.move j st l).events i = s.events i :=
    fun i hi => Function.update_of_ne hi _ _
  have hne : ∀ i, finished ((s.move j st l).child i) = true → i ≠ j := by
    rintro i hi rfl
    rw [child_move, hst] at hi
    cases hi
  have hfin : ∀ i, finished (s.child i) = true → finished ((s.move j st l).child i) = true :=
    finished_update fun h => by simp [hj] at h
  refine ⟨ht.bound, ht.checker, ht.bottom, fun i h => ?_, fun i h => ?_, ht.once, fun i h => ?_,
    fun i h => ?_, fun i h => ?_, fun i r h => ?_, ht.error, fun h => ?_, fun h => ?_,
    fun h i hi => ?_, ht.unsuspended⟩
  · by_cases hi : i = j
    · subst hi
      simpa using hask h
    · rw [hch i hi]
      exact ht.asking i h
  · have hi : i ≠ j := fun hi => ht.not_taking hj (hi ▸ h)
    rw [hch i hi]
    exact ht.taking i h
  · by_cases hi : i = j
    · subst hi
      rw [child_move]
      rw [events_move] at h
      exact hhold h
    · rw [hev i hi] at h
      rw [hch i hi]
      exact ht.holding i h
  · have hi := hne i (by rw [h]; rfl)
    rw [hch i hi] at h
    exact ht.failed i h
  · have hi := hne i (by rw [h]; rfl)
    rw [hch i hi] at h
    exact ht.value i h
  · have hi : i ≠ j := fun hi => ht.no_report hj r (hi ▸ h)
    have ha := ht.agrees i r h
    cases r with
    | ok v => exact ⟨(hch i hi).trans ha.1, ha.2⟩
    | error e => exact (hch i hi).trans ha
  · refine Reason.mono ?_ hfin id
    rcases h with ⟨i, hi⟩ | h
    · by_cases hij : i = j
      · subst hij
        rw [child_move] at hi
        exact hdis hi
      · rw [hch i hij] at hi
        exact ht.reason (.inl ⟨i, hi⟩)
    · exact ht.reason (.inr h)
  · obtain ⟨i, hi⟩ := ht.some h
    exact ⟨i, hfin i hi⟩
  · by_cases hij : i = j
    · subst hij
      rw [child_move] at hi
      exact ht.willing h i (hnew hi)
    · rw [hch i hij] at hi
      exact ht.willing h i hi

/-- The result of a child is about to be taken. -/
theorem Tally.take {j : Fin n} {st : HelperState} {l : List Event} (ht : Tally m R s)
    (hj : finished (s.child j) = false) (hno : .earlyCancel (j : ℕ) ∉ s.stack)
    (hl : holds l = false) : Tally m R ((s.move j st l).reportResult j) := by
  unfold State.reportResult
  rw [setState_move, record_move]
  set u := (s.move j .succeeded (l ++ [.resume])).enter (.awaitResume j) with hu
  have hself : u.child j = .succeeded := Function.update_self _ _ _
  have hch : ∀ i, i ≠ j → u.child i = s.child i := fun i hi => Function.update_of_ne hi _ _
  have hev : ∀ i, i ≠ j → u.events i = s.events i := fun i hi => Function.update_of_ne hi _ _
  have hout : .awaitResume (j : ℕ) ∉ s.stack := ht.not_taking hj
  have hfin : ∀ i, finished (s.child i) = true → finished (u.child i) = true :=
    finished_update fun _ => rfl
  have hmem : ∀ {p : Frame → Bool}, p (.awaitResume j) = false → (∃ x ∈ u.stack, p x = true) →
      ∃ x ∈ s.stack, p x = true := by
    rintro p hp ⟨x, hx, h⟩
    rcases List.mem_cons.1 hx with rfl | hx
    · rw [hp] at h
      cases h
    · exact ⟨x, hx, h⟩
  refine ⟨ht.bound, ht.checker, ⟨by simp [Frame.isLoop], ht.bottom⟩, fun i h => ?_, fun i h => ?_,
    fun i => ?_, fun i h => ?_, fun i h => ?_, fun i h => ?_, fun i r h => ?_, ht.error, fun h => ?_,
    fun h => ?_, fun h i hi => ?_, fun h => ht.unsuspended (hmem rfl h)⟩
  · rcases List.mem_cons.1 h with h | h
    · cases h
    · have hi : i ≠ j := fun hi => hno (hi ▸ h)
      rw [hch i hi]
      exact ht.asking i h
  · by_cases hi : i = j
    · subst hi
      exact ⟨hself, ht.no_report hj⟩
    · rw [hch i hi]
      refine ht.taking i ?_
      rcases List.mem_cons.1 h with h | h
      · exact absurd (Fin.ext (Frame.awaitResume.inj h)) hi
      · exact h
  · show (Frame.awaitResume j :: s.stack).count _ ≤ 1
    by_cases hi : i = j
    · subst hi
      rw [List.count_cons_self, List.count_eq_zero.2 hout]
    · rw [List.count_cons_of_ne fun h => hi (Fin.ext (Frame.awaitResume.inj h).symm)]
      exact ht.once i
  · by_cases hi : i = j
    · subst hi
      have hev : u.events i = l ++ [.resume] := Function.update_self _ _ _
      rw [hev, holds_append hl (by simp)] at h
      cases h
    · rw [hev i hi] at h
      rw [hch i hi]
      exact ht.holding i h
  · have hi : i ≠ j := by
      rintro rfl
      rw [hself] at h
      cases h
    rw [hch i hi] at h
    exact ht.failed i h
  · by_cases hi : i = j
    · subst hi
      exact .inl List.mem_cons_self
    · rw [hch i hi] at h
      exact (ht.value i h).imp_left fun h => List.mem_cons_of_mem _ h
  · have hi : i ≠ j := fun hi => ht.no_report hj r (hi ▸ h)
    have ha := ht.agrees i r h
    cases r with
    | ok v => exact ⟨(hch i hi).trans ha.1, ha.2⟩
    | error e => exact (hch i hi).trans ha
  · refine Reason.mono (ht.reason ?_) hfin id
    refine h.imp ?_ (hmem rfl)
    rintro ⟨i, hi⟩
    have hij : i ≠ j := by
      rintro rfl
      rw [hself] at hi
      cases hi
    rw [hch i hij] at hi
    exact ⟨i, hi⟩
  · obtain ⟨i, hi⟩ := ht.some (hmem rfl h)
    exact ⟨i, hfin i hi⟩
  · have hij : i ≠ j := by
      rintro rfl
      rw [hself] at hi
      cases hi
    rw [hch i hij] at hi
    exact ht.willing (hmem rfl h) i hi

/-- A child reports its result: the call `f` is over, and the child is in the state `st`. -/
theorem Tally.report {f : Frame} {below : List Frame} {j : Fin n} {st : HelperState}
    {l : List Event} {r : Except Err V} (ht : Tally m R s) (hst : s.stack = f :: below)
    (hf : ∀ i : Fin n, f = .awaitResume i → i = j) (hout : .awaitResume (j : ℕ) ∉ below)
    (hno : .earlyCancel (j : ℕ) ∉ below) (hnew : ∀ r', (j, r') ∉ R)
    (hch : u.child = Function.update s.child j st) (hev : u.events = Function.update s.events j l)
    (hsto : ∀ i, i ≠ j → u.storage i = s.storage i) (hstack : u.stack = below)
    (herr : u.error = s.error.or (errorOf (j, r))) (hb : u.bound = s.bound)
    (hc : u.checker = s.checker) (hpar : u.parent = s.parent) (hrd : u.ready = s.ready)
    (hl : holds l = false) (ha : Agrees u j r) : Tally m (R ++ [(j, r)]) u := by
  have hself : u.child j = st := by rw [hch, Function.update_self]
  have hoth : ∀ i, i ≠ j → u.child i = s.child i := by
    intro i hi
    rw [hch, Function.update_of_ne hi]
  have hsub : ∀ {g : Frame}, g ∈ u.stack → g ∈ s.stack := by
    intro g hg
    rw [hst]
    exact List.mem_cons_of_mem f (hstack ▸ hg)
  have hmem : ∀ {p : Frame → Bool}, (∃ x ∈ u.stack, p x = true) → ∃ x ∈ s.stack, p x = true :=
    fun ⟨x, hx, h⟩ => ⟨x, hsub hx, h⟩
  have hres : finished st = true := by
    cases r with
    | ok v => rw [← hself, ha.1]; rfl
    | error e => rw [← hself, show u.child j = .failed from ha]; rfl
  have hfin : ∀ i, finished (s.child i) = true → finished (u.child i) = true := by
    rw [hch]
    exact finished_update fun _ => hres
  refine ⟨hb ▸ ht.bound, hc ▸ ht.checker, ?_, fun i h => ?_, fun i h => ?_, fun i => ?_, fun i h => ?_,
    fun i h => ?_, fun i h => ?_, fun i r' h => ?_, ?_, fun h => ?_, fun h => ?_, fun h i hi => ?_,
    fun h => ?_⟩
  · have hbot := ht.bottom
    rw [hst] at hbot
    rw [hstack]
    exact hbot.2
  · have hi : i ≠ j := fun hi => hno (hi ▸ hstack ▸ h)
    rw [hoth i hi]
    exact ht.asking i (hsub h)
  · have hi : i ≠ j := fun hi => hout (hi ▸ hstack ▸ h)
    obtain ⟨h₁, h₂⟩ := ht.taking i (hsub h)
    rw [hoth i hi]
    refine ⟨h₁, fun r' hr => ?_⟩
    rcases List.mem_append.1 hr with hr | hr
    · exact h₂ r' hr
    · exact hi (Prod.mk.inj (List.mem_singleton.1 hr)).1
  · have hone := ht.once i
    rw [hst, List.count_cons] at hone
    rw [hstack]
    omega
  · by_cases hi : i = j
    · subst hi
      rw [hev, Function.update_self, hl] at h
      cases h
    · rw [hev, Function.update_of_ne hi] at h
      rw [hoth i hi]
      exact ht.holding i h
  · by_cases hi : i = j
    · subst hi
      cases r with
      | ok v =>
        rw [ha.1] at h
        cases h
      | error e => exact ⟨e, by simp⟩
    · rw [hoth i hi] at h
      obtain ⟨e, he⟩ := ht.failed i h
      exact ⟨e, List.mem_append_left _ he⟩
  · by_cases hi : i = j
    · subst hi
      cases r with
      | ok v => exact .inr ⟨v, by simp⟩
      | error e =>
        rw [show u.child i = .failed from ha] at h
        cases h
    · rw [hoth i hi] at h
      rcases ht.value i h with hin | ⟨v, hv⟩
      · rw [hst] at hin
        rcases List.mem_cons.1 hin with hin | hin
        · exact absurd (hf i hin.symm) hi
        · exact .inl (hstack ▸ hin)
      · exact .inr ⟨v, List.mem_append_left _ hv⟩
  · rcases List.mem_append.1 h with h | h
    · have hi : i ≠ j := fun hi => hnew r' (hi ▸ h)
      have hag := ht.agrees i r' h
      cases r' with
      | ok v => exact ⟨(hoth i hi).trans hag.1, (hsto i hi).trans hag.2⟩
      | error e => exact (hoth i hi).trans hag
    · obtain ⟨rfl, rfl⟩ := Prod.mk.inj (List.mem_singleton.1 h)
      exact ha
  · rw [herr, ht.error, firstError_append]
  · refine Reason.mono (ht.reason ?_) hfin fun hsome => ?_
    · refine h.imp ?_ hmem
      rintro ⟨i, hi⟩
      have hij : i ≠ j := by
        rintro rfl
        rw [hself] at hi
        cases st <;> cases hres <;> cases hi
      rw [hoth i hij] at hi
      exact ⟨i, hi⟩
    · obtain ⟨e, he⟩ := Option.isSome_iff_exists.1 hsome
      rw [herr, he]
      rfl
  · obtain ⟨i, hi⟩ := ht.some (hmem h)
    exact ⟨i, hfin i hi⟩
  · have hij : i ≠ j := by
      rintro rfl
      rw [hself] at hi
      rw [hi] at hres
      cases hres
    rw [hoth i hij] at hi
    rw [hrd]
    exact ht.willing (hmem h) i hi
  · rw [hpar]
    exact ht.unsuspended (hmem h)

/-! ### The mux -/

/-- Only the checker changes, and it stays where it may be. -/
theorem Tally.setChecker {c : Checker} (ht : Tally m R s)
    (hc : c.state = .running ∨ c.state = .ready ∨ c.state = .done) :
    Tally m R { s with checker := c } :=
  { ht with checker := hc }

theorem Tally.resumeParent (ht : Tally m R s) : Tally m R s.resumeParent := by
  unfold State.resumeParent
  split_ifs
  · have hc : (s.checker.resumed.getD s.checker).state = .running ∨
        (s.checker.resumed.getD s.checker).state = .ready ∨
        (s.checker.resumed.getD s.checker).state = .done := by
      rcases ht.checker with h | h | h <;> simp [Checker.resumed, h, Checker.set]
    have hu : Tally m R { s with checker := s.checker.resumed.getD s.checker } := ht.setChecker hc
    have hu' : Tally m R { s with
        resumed := s.resumed ++ [s.child]
        checker := s.checker.resumed.getD s.checker } :=
      hu.congr rfl rfl rfl rfl rfl rfl rfl rfl fun _ => id
    exact hu'.enter (f := .parent) (by simp) (by simp [Frame.isLoop]) (by simp)
      (by simp [Frame.cancels]) rfl
  · exact ht

theorem minReady_eq (hm : m.combiner ≠ .anyOf) : m.minReady = n := by
  unfold Kind.minReady
  cases hc : m.combiner with
  | anyOf => exact absurd hc hm
  | mostOf | allOf => rfl

/-- `invoke(err)`, where `anyOf()` is not called before some child has a result. -/
theorem Tally.muxInvoke {err : Option Err} (ht : Tally m R { s with error := s.errorAfter err })
    (hsome : m.combiner = .anyOf → ∃ i, finished (s.child i) = true) :
    Tally m R (s.muxInvoke m err) := by
  unfold State.muxInvoke
  by_cases hn : s.count + 1 = n
  · have hu : Tally m R { s with error := s.errorAfter err, count := s.count + 1 } :=
      ht.congr rfl rfl rfl rfl rfl rfl rfl rfl fun _ => id
    simp only [if_pos hn]
    exact hu.resumeParent
  by_cases hc : (err.isSome && s.error.isNone || s.count + 1 == m.minReady) = true
  · have hu : Tally m R { s with error := s.errorAfter err, count := s.count + 1 - 1 } :=
      ht.congr rfl rfl rfl rfl rfl rfl rfl rfl fun _ => id
    simp only [if_neg hn, if_pos hc]
    refine hu.enter (f := .cancelLoop .invoke 0 true) (by simp) (by simp [Frame.isLoop]) (by simp)
      (fun _ => ?_) rfl
    unfold Reason
    split_ifs with hany
    · exact hsome hany
    · -- The children are not needed any more only because one of them has failed.
      have hmin : (s.count + 1 == m.minReady) = false := by
        rw [minReady_eq hany]
        exact beq_eq_false_iff_ne.2 hn
      rw [hmin, Bool.or_false] at hc
      show (s.errorAfter err).isSome = true
      unfold State.errorAfter
      rw [if_pos hc]
      exact (Bool.and_eq_true_iff.1 hc).1
  · simp only [if_neg hn, if_neg hc]
    exact ht.congr rfl rfl rfl rfl rfl rfl rfl rfl fun _ => id

/-- `invoke()` for a child that has been cancelled. -/
theorem Tally.muxInvoke_none (ht : Tally m R s) (hr : Reason m s) :
    Tally m R (s.muxInvoke m none) := by
  refine Tally.muxInvoke ht fun hany => ?_
  unfold Reason at hr
  rwa [if_pos hany] at hr

/-! ### What the functions do -/

/-- A child that has not been called back yet, and is not being asked early, has completed. -/
theorem Tally.helperInvoke {j : Fin n} {st : HelperState} {l : List Event} {must : Bool}
    (ht : Tally m R s) (hj : finished (s.child j) = false)
    (hno : .earlyCancel (j : ℕ) ∉ s.stack) (hl : holds l = false)
    (hdis : st = .cancelling → Reason m s)
    (h : (s.move j st l).helperInvoke m j must = .ok t) : Tally m R t := by
  unfold State.helperInvoke at h
  rw [child_move] at h
  cases st with
  | cancelling =>
    have hl' : holds (l ++ [.mustResume must]) = false := holds_append hl (by simp)
    simp only [record_move, setState_move] at h
    split_ifs at h
    · cases h
      exact ht.take hj hno hl'
    · cases h
      have hu : Tally m R (s.move j .cancelled (l ++ [.mustResume must])) := by
        refine ht.move hj rfl (by simp) (fun hmem => absurd hmem hno) ?_ fun _ => hdis rfl
        simp [hl']
      refine hu.muxInvoke_none (hu.reason (.inl ⟨j, ?_⟩))
      rw [child_move]
      rfl
  | running | ready =>
    cases h
    exact ht.take hj hno hl
  | _ => cases h

/-- A child is started. -/
theorem Tally.kickOff {j : Fin n} {must : Bool} (ht : Tally m R s)
    (hno : .earlyCancel (j : ℕ) ∉ s.stack)
    (hj : s.child j = .notStarted ∨ s.child j = .cancellationPending)
    (h : s.kickOff m j must = .ok t) : Tally m R t := by
  have hfin : finished (s.child j) = false := by rcases hj with hj | hj <;> rw [hj] <;> rfl
  have hl : holds (s.events j) = false :=
    ht.not_holds (by rcases hj with hj | hj <;> simp [hj])
  have hdis : s.child j = .cancellationPending → Reason m s := fun hj =>
    ht.reason (.inl ⟨j, by rw [hj]; rfl⟩)
  unfold State.kickOff at h
  rw [setState_eq] at h
  simp only at h
  split_ifs at h with hp
  · exact ht.helperInvoke hfin hno hl (fun _ => hdis hp) h
  · cases h
    rw [record_move]
    have hu : Tally m R (s.move j .cancelling (s.events j ++ [.suspend])) :=
      ht.move hfin rfl (by simp) (fun hmem => absurd hmem hno) (fun _ => .inr rfl) fun _ => hdis hp
    exact hu.enter (by simp) (by simp [Frame.isLoop]) (by simp) (by simp [Frame.cancels]) rfl
  · exact ht.helperInvoke hfin hno hl (by simp) h
  · cases h
    rw [record_move]
    have hu : Tally m R (s.move j .running (s.events j ++ [.suspend])) :=
      ht.move hfin rfl (by simp) (fun hmem => absurd hmem hno) (fun _ => .inl rfl)
        (by simp [disturbed])
    exact hu.enter (by simp) (by simp [Frame.isLoop]) (by simp) (by simp [Frame.cancels]) rfl

theorem Tally.suspend {j : Fin n} {must : Bool} (ht : Tally m R s)
    (hno : .earlyCancel (j : ℕ) ∉ s.stack) (h : s.suspend m j must = .ok t) : Tally m R t := by
  unfold State.suspend at h
  split at h
  · exact ht.kickOff hno (.inl ‹_›) h
  · exact ht.kickOff hno (.inr ‹_›) h
  · rename_i hj
    cases h
    exact ht.muxInvoke_none (ht.reason (.inl ⟨j, by rw [hj]; rfl⟩))
  · cases h

/-- A child that has not been started is asked to cancel itself early. -/
theorem Tally.ask {j : Fin n} (ht : Tally m R s) (hj : s.child j = .notStarted)
    (hr : Reason m s) : Tally m R ((s.record j .earlyCancel).enter (.earlyCancel j)) := by
  have hl : holds (s.events j ++ [.earlyCancel]) = false :=
    holds_append (ht.not_holds (by simp [hj])) (by simp)
  rw [record_eq]
  have hu : Tally m R (s.move j (s.child j) (s.events j ++ [.earlyCancel])) := by
    refine ht.move ?_ ?_ id (fun _ => ?_) ?_ ?_
    · rw [hj]; rfl
    · rw [hj]; rfl
    · rw [hj]; rfl
    · simp [hl]
    · simp [hj, disturbed]
  refine hu.enter (by simp) (by simp [Frame.isLoop]) (fun i hi => ?_) (fun _ => ?_) rfl
  · obtain rfl : j = i := by simpa [Fin.ext_iff] using hi
    rw [child_move, hj]
    rfl
  · refine hr.mono (finished_update fun h => ?_) id
    exact h

/-- `internalCancel()` gets to a child. -/
theorem Tally.cancel {cause : Cause} {all : Bool} {j : Fin n} (ht : Tally m R s)
    (hr : Reason m s) : Tally m R (s.cancel cause all j) := by
  have hloop : ∀ b, Tally m R (s.enter (.cancelLoop cause (j + 1) b)) := fun b =>
    ht.enter (by simp) (by simp [Frame.isLoop]) (by simp) (fun _ => hr) rfl
  unfold State.cancel
  split
  · exact (hloop all).ask ‹_› hr
  · rename_i hj
    rw [setState_eq, record_move]
    have hu : Tally m R ((s.enter (.cancelLoop cause (j + 1) all)).move j .cancelling
        (s.events j ++ [.cancel])) := by
      refine (hloop all).move ?_ rfl (by simp) (fun hmem => ?_) (fun _ => .inr rfl) fun _ => hr
      · show finished (s.child j) = false
        rw [hj]
        rfl
      · have hun : unstarted (s.child j) = true := (hloop all).asking j hmem
        rw [hj] at hun
        cases hun
    refine hu.enter (by simp) (by simp [Frame.isLoop]) (by simp) (fun _ => ?_) rfl
    exact hu.reason (.inl ⟨j, by rw [child_move]; rfl⟩)
  · exact hloop all
  · exact hloop false

/-- `await_early_cancel()` of a child returns. -/
theorem Tally.earlyCancelReturns {done : Bool} (ht : Tally m R s)
    (h : s.earlyCancelReturns m done = .ok t) : Tally m R t := by
  unfold State.earlyCancelReturns at h
  split at h
  · rename_i k below hst
    have hpop := ht.pop hst (by simp)
    have hr : Reason m s := ht.reason (.inr ⟨.earlyCancel k, by simp [hst], rfl⟩)
    simp only at h
    split_ifs at h with hk hd hb
    all_goals
      have hun : unstarted (s.child ⟨k, hk⟩) = true := ht.asking ⟨k, hk⟩ (by simp [hst])
      have hfin : finished (s.child ⟨k, hk⟩) = false := by
        revert hun
        cases s.child ⟨k, hk⟩ <;> simp [unstarted, finished]
      have hl : holds (s.events ⟨k, hk⟩) = false := by
        refine ht.not_holds ?_
        revert hun
        cases s.child ⟨k, hk⟩ <;> simp [unstarted]
    · cases h
      rw [record_eq, setState_move]
      have hu : Tally m R ({ s with stack := below }.move ⟨k, hk⟩ .cancelled
          (s.events ⟨k, hk⟩ ++ [Event.confirmed])) := by
        refine hpop.move hfin rfl (by simp) (fun _ => rfl) ?_ fun _ => hr
        simp [holds_confirmed]
      refine hu.muxInvoke_none (hu.reason (.inl ⟨⟨k, hk⟩, ?_⟩))
      rw [child_move]
      rfl
    · exact absurd ht.bound hb
    · rw [setState_eq] at h
      have hu : Tally m R ({ s with stack := below }.move ⟨k, hk⟩ .cancellationPending
          (s.events ⟨k, hk⟩)) :=
        hpop.move hfin rfl (by simp) (fun _ => rfl) (by simp [hl]) fun _ => hr
      split at h
      · cases h
        exact hu.swap rfl (by simp) (by simp) rfl rfl rfl
      · cases h
      · cases h
  · cases h

/-- `await_cancel()` of a child returns. -/
theorem Tally.cancelReturns {done : Bool} (ht : Tally m R s)
    (h : s.cancelReturns m done = .ok t) : Tally m R t := by
  unfold State.cancelReturns at h
  split at h
  · rename_i k cause i all below hst
    have hpop := ht.pop hst (by simp)
    have hr : Reason m s := ht.reason (.inr ⟨.awaitCancel k, by simp [hst], rfl⟩)
    split_ifs at h with hk hd hh hab
    · cases h
      rw [record_eq, setState_move]
      have hj := ht.holding ⟨k, hk⟩ hh
      have hu : Tally m R ({ s with stack := .cancelLoop cause i all :: below }.move ⟨k, hk⟩
          .cancelled (s.events ⟨k, hk⟩ ++ [Event.confirmed])) := by
        refine hpop.move ?_ rfl (by simp) (fun _ => rfl) ?_ fun _ => hr
        · rcases hj with hj | hj <;> exact hj ▸ rfl
        · simp [holds_confirmed]
      refine hu.muxInvoke_none (hu.reason (.inl ⟨⟨k, hk⟩, ?_⟩))
      rw [child_move]
      rfl
    · cases h
      exact hpop.swap rfl (by simp) (by simp) rfl rfl rfl
  · cases h

theorem reported_suspendThrows {k : ℕ} {below : List Frame} (hst : s.stack = .awaitSuspend k :: below)
    (hk : k < n) (e : Err) :
    reported (V := V) s (.suspendThrows e) = some (⟨k, hk⟩, .error e) := by
  simp [reported, hst, hk]

theorem reported_resumeReturns {k : ℕ} {below : List Frame} (hst : s.stack = .awaitResume k :: below)
    (hk : k < n) (r : Except Err V) : reported s (.resumeReturns r) = some (⟨k, hk⟩, r) := by
  simp [reported, hst, hk]

theorem errorAfter_some (e : Err) : s.errorAfter (some e) = s.error.or (some e) := by
  unfold State.errorAfter
  cases s.error <;> rfl

/-- `await_suspend()` of a child throws. -/
theorem Tally.suspendThrows {err : Err} (ht : Tally m R s) (h : s.suspendThrows m err = .ok t) :
    Tally m (R ++ (reported s (.suspendThrows err)).toList) t := by
  unfold State.suspendThrows at h
  split at h
  · rename_i k below hst
    split_ifs at h with hk hh
    cases h
    have hj := ht.holding ⟨k, hk⟩ hh
    have hfin : finished (s.child ⟨k, hk⟩) = false := by
      rcases hj with hj | hj <;> rw [hj] <;> rfl
    rw [reported_suspendThrows hst hk, record_eq, setState_move]
    refine Tally.muxInvoke ?_ fun _ => ⟨⟨k, hk⟩, ?_⟩
    · refine ht.report (f := .awaitSuspend k) hst (by simp) (fun hmem => ?_) (fun hmem => ?_)
        (ht.no_report hfin) rfl rfl (fun _ _ => rfl) rfl (errorAfter_some err) rfl rfl rfl rfl
        (holds_threw _) (Function.update_self _ _ _)
      · exact ht.not_taking hfin (hst ▸ List.mem_cons_of_mem _ hmem)
      · have hun := ht.asking ⟨k, hk⟩ (hst ▸ List.mem_cons_of_mem _ hmem)
        rcases hj with hj | hj <;> rw [hj] at hun <;> cases hun
    · rw [child_move]
      rfl
  · cases h

/-- `await_resume()` of a child returns. -/
theorem Tally.resumeReturns {result : Except Err V} (ht : Tally m R s)
    (h : s.resumeReturns m result = .ok t) :
    Tally m (R ++ (reported s (.resumeReturns result)).toList) t := by
  unfold State.resumeReturns at h
  split at h
  · rename_i k below hst
    split_ifs at h with hk
    rw [reported_resumeReturns hst hk]
    obtain ⟨hj, hnew⟩ := ht.taking ⟨k, hk⟩ (by simp [hst])
    have hl : holds (s.events ⟨k, hk⟩) = false := ht.not_holds (by simp [hj])
    have hout : .awaitResume k ∉ below := by
      have hone : s.stack.count (.awaitResume k) ≤ 1 := ht.once ⟨k, hk⟩
      rw [hst, List.count_cons_self] at hone
      exact List.count_eq_zero.1 (by omega)
    have hno : .earlyCancel k ∉ below := by
      intro hmem
      have hun := ht.asking ⟨k, hk⟩ (hst ▸ List.mem_cons_of_mem _ hmem)
      rw [hj] at hun
      cases hun
    have hf : ∀ i : Fin n, Frame.awaitResume k = .awaitResume i → i = ⟨k, hk⟩ := by
      simp [Fin.ext_iff, eq_comm]
    have hev : s.events = Function.update s.events ⟨k, hk⟩ (s.events ⟨k, hk⟩) := by simp
    cases result with
    | ok v =>
      cases h
      refine Tally.muxInvoke ?_ fun _ => ⟨⟨k, hk⟩, ?_⟩
      · have hch : s.child = Function.update s.child ⟨k, hk⟩ .succeeded := by
          rw [← hj]
          simp
        exact ht.report hst hf hout hno hnew hch hev
          (fun i hi => Function.update_of_ne hi _ _) rfl (by simp [errorOf, State.errorAfter]) rfl rfl
          rfl rfl hl ⟨hj, Function.update_self _ _ _⟩
      · show finished (s.child _) = true
        rw [hj]
        rfl
    | error err =>
      cases h
      refine Tally.muxInvoke ?_ fun _ => ⟨⟨k, hk⟩, ?_⟩
      · exact ht.report hst hf hout hno hnew rfl hev (fun _ _ => rfl) rfl (errorAfter_some err) rfl rfl
          rfl rfl hl (Function.update_self _ _ _)
      · rw [setState_eq, child_move]
        rfl
  · cases h

/-- The result of a child is reported without suspension. -/
theorem Tally.reportImmediateResult {j : Fin n} {must : Bool} (ht : Tally m R s)
    (hno : .earlyCancel (j : ℕ) ∉ s.stack) (hrep : ∃ f ∈ s.stack, f.reports = true)
    (h : s.reportImmediateResult m j must = .ok t) : Tally m R t := by
  unfold State.reportImmediateResult at h
  by_cases hj : s.child j = .cancellationPending
  · have hfin : finished (s.child j) = false := by rw [hj]; rfl
    have hl : holds (s.events j ++ [.mustResume must]) = false :=
      holds_append (ht.not_holds (by simp [hj])) (by simp)
    have hr : Reason m s := ht.reason (.inl ⟨j, by rw [hj]; rfl⟩)
    rw [if_pos hj, record_eq, setState_move] at h
    simp only [child_move] at h
    cases must with
    | true =>
      cases h
      exact ht.take hfin hno hl
    | false =>
      cases h
      have hu : Tally m R (s.move j .cancelled (s.events j ++ [.mustResume false])) :=
        ht.move hfin rfl (by simp) (fun _ => rfl) (by simp [hl]) fun _ => hr
      refine hu.muxInvoke_none (hu.reason (.inl ⟨j, ?_⟩))
      rw [child_move]
      rfl
  · rw [if_neg hj] at h
    simp only at h
    split at h
    · rename_i hj'
      cases h
      exact ht.muxInvoke_none (ht.reason (.inl ⟨j, by rw [hj']; rfl⟩))
    · rename_i hj'
      split_ifs at h with hrd
      · cases h
        rw [← move_self (s := s) j]
        exact ht.take (by rw [hj']; rfl) hno (ht.not_holds (by simp [hj']))
      · cases h
        have hany := (ht.willing hrep j hj').resolve_left hrd
        refine ht.ask hj' ?_
        unfold Reason
        rw [if_pos hany.1]
        exact ht.some hrep
    · rename_i hj'
      cases h
      rw [← move_self (s := s) j]
      exact ht.take (by rw [hj']; rfl) hno (ht.not_holds (by simp [hj']))
    · cases h

/-! ### The steps -/

theorem Tally.cancelled {cause : Cause} {all : Bool} (ht : Tally m R s)
    (h : s.cancelled m cause all = .ok t) : Tally m R t := by
  unfold State.cancelled at h
  cases cause with
  | invoke =>
    have hu : Tally m R { s with count := s.count + 1 } :=
      ht.congr rfl rfl rfl rfl rfl rfl rfl rfl fun _ => id
    simp only at h
    split_ifs at h
    · cases h
      exact hu.resumeParent
    · cases h
      exact hu
  | earlyCancel =>
    have hc : (s.checker.earlyCancelReturned all).getD s.checker = s.checker := by
      rcases ht.checker with h | h | h <;> simp [Checker.earlyCancelReturned, h]
    simp only at h
    split_ifs at h
    cases h
    exact ht.congr rfl hc rfl rfl rfl rfl rfl rfl fun _ => id
  | awaitCancel =>
    have hc : (s.checker.cancelReturned all).getD s.checker = s.checker := by
      cases all with
      | true => rcases ht.checker with h | h | h <;> simp [Checker.cancelReturned, h]
      | false => rfl
    have hu : Tally m R { s with
        muted := false
        returned := s.returned ++ [(.awaitCancel, all)]
        checker := (s.checker.cancelReturned all).getD s.checker } :=
      ht.congr rfl hc rfl rfl rfl rfl rfl rfl fun _ => id
    simp only at h
    split_ifs at h
    · cases h
      exact hu.resumeParent
    · cases h
      exact hu

theorem Tally.next {must : Bool} (ht : Tally m R s) (h : s.next m must = .ok t) :
    Tally m R t := by
  have hempty : ∀ {f : Frame} {below : List Frame}, s.stack = f :: below → f.isLoop = true →
      below = [] := by
    intro f below hst hf
    have hb := ht.bottom
    rw [hst] at hb
    exact hb.1 hf
  unfold State.next at h
  split at h
  · rename_i k below hst
    obtain rfl := hempty hst rfl
    split_ifs at h with hk
    · have hu : Tally m R { s with stack := [.suspendLoop (k + 1)] } :=
        ht.swap hst (by simp) (by simp) rfl rfl rfl
      exact hu.suspend (by simp) h
    · cases h
      exact ht.pop hst (by simp)
  · rename_i cause k all below hst
    have hpop := ht.pop hst (by simp)
    split_ifs at h with hk
    · cases h
      exact hpop.cancel (ht.reason (.inr ⟨.cancelLoop cause k all, by simp [hst], rfl⟩))
    · exact hpop.cancelled h
  · rename_i k first below hst
    obtain rfl := hempty hst rfl
    have hu : Tally m R { s with stack := [.reportLoop (k + 1) first] } :=
      ht.swap hst (by simp) (by simp) rfl rfl rfl
    split_ifs at h
    · cases h
      exact hu
    · exact hu.reportImmediateResult (by simp) ⟨_, List.mem_singleton_self _, rfl⟩ h
    · cases takeResults_eq h
      exact ht.pop hst (by simp)
  · cases h

/-- A child resumes its handle. -/
theorem Tally.resumes {j : Fin n} {must : Bool} (ht : Tally m R s)
    (hh : holds (s.events j) = true)
    (h : (s.record j .resumed).helperInvoke m j must = .ok t) : Tally m R t := by
  have hj := ht.holding j hh
  rw [record_eq] at h
  refine ht.helperInvoke ?_ (fun hmem => ?_) (holds_resumed _) (fun hc => ?_) h
  · rcases hj with hj | hj <;> rw [hj] <;> rfl
  · have hun := ht.asking j hmem
    rcases hj with hj | hj <;> rw [hj] at hun <;> cases hun
  · exact ht.reason (.inl ⟨j, by rw [hc]; rfl⟩)

theorem Tally.internal {a : Action n V Err} (ht : Tally m R s)
    (h : s.internal m a = .ok t) : Tally m (R ++ (reported s a).toList) t := by
  have hkeep : reported s a = none → Tally m R t → Tally m (R ++ (reported s a).toList) t := by
    intro hr hu
    rw [hr]
    simpa using hu
  cases a with
  | next => exact hkeep rfl (ht.next h)
  | becomesReady j =>
    cases h
    refine hkeep rfl (ht.congr rfl rfl rfl rfl rfl rfl rfl rfl fun i hi => ?_)
    by_cases hij : i = j
    · subst hij
      exact Function.update_self _ _ _
    · exact (Function.update_of_ne hij _ _).trans hi
  | resumes =>
    simp only [State.internal] at h
    split_ifs at h with hh
    exact hkeep rfl (ht.resumes hh.2.1 h)
  | suspendReturns =>
    simp only [State.internal] at h
    split at h
    · rename_i hst
      cases h
      exact hkeep rfl (ht.pop hst (by simp))
    · cases h
  | suspendThrows => exact ht.suspendThrows h
  | earlyCancelReturns => exact hkeep rfl (ht.earlyCancelReturns h)
  | cancelReturns => exact hkeep rfl (ht.cancelReturns h)
  | resumeReturns => exact ht.resumeReturns h
  | parentReturns =>
    simp only [State.internal] at h
    split at h
    · rename_i hst
      cases h
      exact hkeep rfl (ht.pop hst (by simp))
    · cases h
  | _ => cases h

end Corral.Wait
