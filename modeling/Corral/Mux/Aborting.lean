import Corral.Mux.Outside

/-!
# Cancellation of a mux whose children can all be aborted

`await_cancel()` of an `Abortable` mux is `std::true_type`: it relies on all children being cancelled when
`internalCancel()` returns.

* `State.outcome`: whether `await_cancel()` is in progress, and what it has returned;
* `Loops`: the calls in progress are `internalCancel()`, called by `await_cancel()` and by the children
  that have confirmed;
* `Aborting`: meanwhile every child is running or cancelled, except for the one whose `await_cancel()` is in
  progress;
* `aborting_of_reach`: so it is in the runs in question, and `await_cancel()` finds what it relies on.
-/

namespace Corral.Mux

open ActionMachine

variable {n : ℕ} {V Err : Type*} {m : Kind n} {minReady : ℕ} {s t : State n V Err}

/-! ### What `await_cancel()` has come to -/

/-- `await_cancel()` is in progress, or what it has returned. -/
def State.outcome (s : State n V Err) : Bool × List (Cause × Bool) := (s.muted, s.returned)

theorem outcome_muxInvoke (s : State n V Err) (j : Fin n) (err : Option Err) :
    (s.muxInvoke minReady j err).outcome = s.outcome := by
  obtain hu | hu := muxInvoke_noted minReady s j err
  · obtain ⟨-, -, -, hm, -⟩ := advance_frame (s.noted j err)
    obtain ⟨hr, -, -⟩ := advance_rest (s.noted j err)
    rw [hu]
    exact Prod.ext hm hr
  · rw [hu]
    rfl

theorem outcome_helperInvoke {j : Fin n} {ans : Answers V Err}
    (h : s.helperInvoke minReady j ans = .ok t) : t.outcome = s.outcome := by
  obtain ⟨-, -, st, storage, err, -, rfl⟩ := helperInvoke_result h
  exact outcome_muxInvoke _ _ _

theorem outcome_suspend {j : Fin n} {ans : Answers V Err} (h : s.suspend minReady j ans = .ok t) :
    t.outcome = s.outcome := by
  obtain ⟨st, -, hinvoke | rfl⟩ | ⟨-, rfl⟩ := suspend_cases h
  · rw [outcome_helperInvoke hinvoke]
    rfl
  · rfl
  · exact outcome_muxInvoke _ _ _

theorem outcome_cancel (cause : Cause) (all : Bool) (j : Fin n) (ans : Answers V Err) :
    (s.cancel minReady cause all j ans).outcome = s.outcome := by
  simp only [State.cancel]
  split
  · split_ifs
    · exact outcome_muxInvoke _ _ _
    · rfl
    · rfl
  all_goals rfl

/-- An iteration of a loop changes it only where `internalCancel()` returns to `await_cancel()`. -/
theorem Whole.outcome_next (hw : Whole s) {ans : Answers V Err} (h : s.next m minReady ans = .ok t) :
    t.outcome = s.outcome ∨ ∃ all, (m.isAbortable = true → all = true) ∧
      t.outcome = (false, s.returned ++ [(.awaitCancel, all)]) := by
  have hlay := hw.form.layered
  unfold State.next at h
  split at h
  · rename_i j below hst
    split_ifs at h
    · left
      rw [outcome_suspend h]
      rfl
    · cases h
      exact .inl rfl
  · rename_i cause j all below hst
    rw [hst] at hlay
    split_ifs at h
    · cases h
      exact .inl (outcome_cancel cause all _ ans)
    · obtain ⟨rfl, hall⟩ := afterCancel_of_cancelled h
      obtain ⟨rfl, -⟩ | ⟨rfl, -⟩ := hlay.cause
      · obtain ⟨-, -, -, hm, -⟩ := advance_frame { s with stack := below }
        obtain ⟨hr, -, -⟩ := advance_rest { s with stack := below }
        exact .inl (Prod.ext hm hr)
      · refine .inr ⟨all, hall, ?_⟩
        simp only [State.afterCancel, State.resumeParent]
        split_ifs <;> rfl
  · cases h

/-- What a step does to it. -/
theorem Whole.outcome_step (hw : Whole s) {a : Action n V Err} (hok : CancelledOnce m s a)
    (hs : Mux.step m minReady s a = .ok t) : t.outcome = s.outcome ∨
      a = .awaitCancel ∧ t.outcome = (true, s.returned) ∨
      ∃ all, (m.isAbortable = true → all = true) ∧
        t.outcome = (false, s.returned ++ [(.awaitCancel, all)]) := by
  cases stepped_of_step hs with
  | earlyCancel => exact hok.elim
  | awaitCancel => exact .inr (.inl ⟨rfl, rfl⟩)
  | awaitSuspend | suspendReturns | cancelRefused => exact .inl rfl
  | next h => exact (hw.outcome_next h).imp_right .inr
  | resume _ _ h => exact .inl (outcome_helperInvoke h)
  | suspendThrows | cancelConfirmed => exact .inl (outcome_muxInvoke _ _ _)

/-! ### While the mux is being cancelled -/

/-- The calls of `internalCancel()` in progress, the one by `await_cancel()` at the bottom: it has found no
child that it could not cancel. -/
inductive Loops : List Frame → Prop
  | outside (k : ℕ) : Loops [.cancelLoop .awaitCancel k true]
  | invoke {k : ℕ} {all : Bool} {st : List Frame} : Loops st → Loops (.cancelLoop .invoke k all :: st)

/-- A child that has not been done before the mux was cancelled. -/
def HelperState.steady (st : HelperState) : Prop := st = .running ∨ st = .cancelled

/-- Where the children and the calls in progress stand while the mux is being cancelled. -/
inductive Aborting (s : State n V Err) : Prop
  | loop : Loops s.stack → (∀ i, (s.child i).steady) → Aborting s
  | busy {j : Fin n} {st : List Frame} : s.stack = .awaitCancel j :: st → Loops st →
      s.child j = .cancelling → (∀ i, i ≠ j → (s.child i).steady) → Aborting s

/-- The loop on top gets to the next child. -/
theorem Loops.pass {cause : Cause} {k k' : ℕ} {all : Bool} {st : List Frame}
    (h : Loops (.cancelLoop cause k all :: st)) : Loops (.cancelLoop cause k' (all && true) :: st) := by
  rw [Bool.and_true]
  cases h with
  | outside => exact .outside k'
  | invoke h => exact .invoke h

theorem Loops.all {k : ℕ} {all : Bool} {st : List Frame}
    (h : Loops (.cancelLoop .awaitCancel k all :: st)) : all = true := by
  cases h
  rfl

theorem Aborting.congr (ha : Aborting s) (hc : t.child = s.child) (hst : t.stack = s.stack) :
    Aborting t := by
  cases ha with
  | loop hl hs => exact .loop (hst ▸ hl) (hc ▸ hs)
  | busy hb hl hj hs => exact .busy (hst.trans hb) hl (hc ▸ hj) (hc ▸ hs)

/-- The top of the stack. -/
theorem Aborting.cases_top (ha : Aborting s) {f : Frame} {below : List Frame}
    (hst : s.stack = f :: below) :
    (∃ cause k all, f = .cancelLoop cause k all ∧ Loops s.stack ∧ ∀ i, (s.child i).steady) ∨
    ∃ j : Fin n, f = .awaitCancel j ∧ Loops below ∧ s.child j = .cancelling ∧
      ∀ i, i ≠ j → (s.child i).steady := by
  cases ha with
  | loop hl hs =>
    refine .inl ?_
    rw [hst] at hl ⊢
    cases hl with
    | outside k => exact ⟨.awaitCancel, k, true, rfl, .outside k, hs⟩
    | invoke h => exact ⟨.invoke, _, _, rfl, .invoke h, hs⟩
  | busy hb hl hj hs =>
    cases hst.symm.trans hb
    exact .inr ⟨_, rfl, hl, hj, hs⟩

/-- A child has confirmed its cancellation, and `MuxBase::invoke()` counts it. -/
theorem aborting_muxInvoke {j : Fin n} (hl : Loops s.stack) (hs : ∀ i, (s.child i).steady) :
    Aborting (s.muxInvoke minReady j none) := by
  obtain hu | hu := muxInvoke_noted minReady s j none
  · obtain ⟨hc, hst, -⟩ := advance_frame (s.noted j none)
    rw [hu]
    exact (Aborting.loop (s := s) hl hs).congr hc hst
  · rw [hu]
    exact .loop (.invoke hl) hs

/-- The loop on top gets to a child, which is running or cancelled. -/
theorem Aborting.cancelNext {cause : Cause} {j : ℕ} {all : Bool} {below : List Frame}
    (hst : s.stack = .cancelLoop cause j all :: below) (hl : Loops s.stack)
    (hs : ∀ i, (s.child i).steady) (h : j < n) (ans : Answers V Err) :
    Aborting ({ s with stack := below }.cancel minReady cause all ⟨j, h⟩ ans) := by
  rw [hst] at hl
  have hpass : Loops (.cancelLoop cause (j + 1) (all && true) :: below) := hl.pass
  obtain hj | hj := hs ⟨j, h⟩
  · have hcancel : ({ s with stack := below }.cancel minReady cause all ⟨j, h⟩ ans) =
        ((({ s with stack := below } : State n V Err).enter
          (.cancelLoop cause (j + 1) (all && true))).setState ⟨j, h⟩ .cancelling).enter
            (.awaitCancel j) := by
      simp only [State.cancel, hj]
    rw [hcancel]
    refine .busy (j := ⟨j, h⟩) rfl hpass (Function.update_self _ _ _) fun i hi => ?_
    have hsame : Function.update s.child ⟨j, h⟩ .cancelling i = s.child i :=
      Function.update_of_ne hi _ _
    show HelperState.steady (Function.update s.child ⟨j, h⟩ .cancelling i)
    rw [hsame]
    exact hs i
  · have hcancel : ({ s with stack := below }.cancel minReady cause all ⟨j, h⟩ ans) =
        ({ s with stack := below } : State n V Err).enter
          (.cancelLoop cause (j + 1) (all && true)) := by
      simp only [State.cancel, hj]
    rw [hcancel]
    exact .loop hpass hs

/-- A loop that has been called by a child ends. -/
theorem Aborting.invokeDone {j : ℕ} {all : Bool} {below : List Frame}
    (hst : s.stack = .cancelLoop .invoke j all :: below) (hl : Loops s.stack)
    (hs : ∀ i, (s.child i).steady) : Aborting ({ s with stack := below }.afterCancel .invoke all) := by
  rw [hst] at hl
  obtain ⟨hc, hbelow, -⟩ := advance_frame { s with stack := below }
  cases hl with
  | invoke hl => exact (Aborting.loop (s := { s with stack := below }) hl hs).congr hc hbelow

/-- One iteration of the loop in control. -/
theorem Aborting.next (ha : Aborting s) {ans : Answers V Err} (hs : s.next m minReady ans = .ok t)
    (hm : t.muted = true) : Aborting t := by
  unfold State.next at hs
  split at hs
  · rename_i j below hst
    obtain ⟨cause, k, all, hf, -⟩ | ⟨j, hf, -⟩ := ha.cases_top hst <;> cases hf
  · rename_i cause j all below hst
    obtain ⟨cause', k, all', hf, hl, hsteady⟩ | ⟨i, hf, -⟩ := ha.cases_top hst
    · split_ifs at hs with h
      · cases hs
        exact .cancelNext hst hl hsteady h ans
      · obtain ⟨rfl, -⟩ := afterCancel_of_cancelled hs
        cases cause with
        | invoke => exact .invokeDone hst hl hsteady
        | earlyCancel =>
          rw [hst] at hl
          cases hl
        | awaitCancel =>
          -- `parent_` is restored.
          simp only [State.afterCancel, State.resumeParent] at hm
          split_ifs at hm
    · cases hf
  · cases hs

/-- The mux has been cancelled, while all children were running, and it is muted until all have confirmed
their cancellation. -/
theorem Aborting.step (hw : Whole s) (ha : s.muted = true → Aborting s) (habort : m.isAbortable = true)
    {a : Action n V Err} (hok : CancelledOnce m s a) (hs : Mux.step m minReady s a = .ok t)
    (hm : t.muted = true) : Aborting t := by
  obtain hout | ⟨rfl, -⟩ | ⟨all, -, hout⟩ := hw.outcome_step hok hs
  · have hms : s.muted = true := (congrArg Prod.fst hout).symm.trans hm
    have hab := ha hms
    cases stepped_of_step hs with
    | earlyCancel => exact hok.elim
    | awaitSuspend hunbound =>
      have hnil := (hw.form.fresh hunbound).1
      cases hab with
      | loop hl =>
        rw [hnil] at hl
        cases hl
      | busy hst => cases hnil.symm.trans hst
    | awaitCancel _ hunmuted =>
      rw [hms] at hunmuted
      cases hunmuted
    | next h => exact hab.next h hm
    | resume =>
      have hunmuted := hok habort
      rw [hms] at hunmuted
      cases hunmuted
    | suspendReturns hst =>
      obtain ⟨cause, k, all, hf, -⟩ | ⟨j, hf, -⟩ := hab.cases_top hst <;> cases hf
    | suspendThrows hst =>
      obtain ⟨cause, k, all, hf, -⟩ | ⟨j, hf, -⟩ := hab.cases_top hst <;> cases hf
    | @cancelConfirmed j cause k all below hst =>
      obtain ⟨cause', k', all', hf, -⟩ | ⟨i, hf, hl, -, hsteady⟩ := hab.cases_top hst
      · cases hf
      · have hij : j = i := Fin.ext (Frame.awaitCancel.inj hf)
        subst hij
        refine aborting_muxInvoke hl fun i => ?_
        show HelperState.steady (Function.update s.child j .cancelled i)
        by_cases hi : i = j
        · rw [hi, Function.update_self]
          exact .inr rfl
        · rw [Function.update_of_ne hi]
          exact hsteady i hi
    | cancelRefused => cases hok habort hms
  · cases stepped_of_step hs with
    | awaitCancel =>
      obtain ⟨-, -, -, hrun⟩ := hok
      obtain ⟨hnil, hall⟩ := hrun habort
      refine .loop ?_ fun i => .inl (hall i)
      show Loops (.cancelLoop .awaitCancel 0 true :: s.stack)
      rw [hnil]
      exact .outside 0
  · cases hm.symm.trans (congrArg Prod.fst hout)

/-- The run lemma. -/
theorem aborting_of_reach (hn : 0 < n)
    (hr : Reach (step m minReady) (CancelledOnce m) (.init : State n V Err) s)
    (habort : m.isAbortable = true) : s.muted = true → Aborting s := by
  exact hr.invariant_of (I := fun s => s.muted = true → Aborting s) (J := Whole)
    (fun t ht => whole_of_reach hn ht) (fun h => by cases h)
    fun s a t hw ha hok hs => Aborting.step hw ha habort hok hs

/-- The caller of `internalCancel()` finds what it relies on. -/
theorem Whole.trusts (hw : Whole s) (ha : m.isAbortable = true → s.muted = true → Aborting s) :
    Trusts m s.stack := by
  have hlay := hw.form.layered
  cases hst : s.stack with
  | nil => trivial
  | cons f below =>
    rw [hst] at hlay
    cases f with
    | cancelLoop cause j all =>
      intro hrelies
      obtain ⟨rfl, -⟩ | ⟨rfl, hm, -⟩ := hlay.cause
      · cases hrelies
      · obtain ⟨-, -, -, -, hl, -⟩ | ⟨i, hf, -⟩ := (ha hrelies hm).cases_top hst
        · rw [hst] at hl
          exact hl.all
        · cases hf
    | _ => trivial

/-- What `await_cancel()` of an `Abortable` mux has returned. -/
theorem returned_of_reach (hn : 0 < n)
    (hr : Reach (step m minReady) (CancelledOnce m) (.init : State n V Err) s)
    (habort : m.isAbortable = true) : ∀ r ∈ s.returned, r = (.awaitCancel, true) := by
  refine hr.invariant_of (I := fun s => ∀ r ∈ s.returned, r = (.awaitCancel, true)) (J := Whole)
    (fun t ht => whole_of_reach hn ht) (fun r hr => by cases hr) fun s a t hw hi hok hs r hr => ?_
  obtain hout | ⟨-, hout⟩ | ⟨all, hall, hout⟩ := hw.outcome_step hok hs
  · have hsame : t.returned = s.returned := congrArg Prod.snd hout
    exact hi r (hsame ▸ hr)
  · have hsame : t.returned = s.returned := congrArg Prod.snd hout
    exact hi r (hsame ▸ hr)
  · have hmore : t.returned = s.returned ++ [(.awaitCancel, all)] := congrArg Prod.snd hout
    rw [hmore, hall habort, List.mem_append, List.mem_singleton] at hr
    exact hr.elim (hi r) id

end Corral.Mux
