import Corral.Wait.Reports

/-!
# The results of a mux

* `State.wrapped`: what `await_resume()` yields once the results of the children are taken;
* `Over`: a child is terminal;
* `Fresh`, `Known`: before and after the children are bound to the mux;
* `Collecting`: the loop of `handleResumeWithoutSuspend()` is in progress; at its end all children
  are terminal;
* `results_of_over`: the result.
-/

namespace Corral.Wait

open ActionMachine AwaiterStateChecker
open Mux (HelperState Cause)

variable {n : ℕ} {V Err : Type*} {m : Kind n} {s t u : State n V Err}
  {R : List (Fin n × Except Err V)}

/-- What `await_resume()` yields: `wrapError()`, or `wrapValue()` of `result()` or `asOptional()` of
every child. -/
def State.wrapped (s : State n V Err) : Except Err (Fin n → Option V) :=
  match s.error with
  | some e => .error e
  | none => .ok fun j => if s.child j = .succeeded then s.storage j else none

/-- The child is terminal: it has been cancelled, or its result has been taken. -/
def Over (s : State n V Err) (j : Fin n) : Prop :=
  (s.child j = .cancelled ∨ s.child j = .succeeded ∨ s.child j = .failed) ∧
    .awaitResume (j : ℕ) ∉ s.stack

/-! ### Without suspension -/

/-- The states of a child that is never suspended. -/
def calm : HelperState → Bool
  | .notStarted => true
  | .cancellationPending => true
  | .cancelled => true
  | .succeeded => true
  | .failed => true
  | _ => false

/-- The child is terminal. -/
def settled : HelperState → Bool
  | .cancelled => true
  | .succeeded => true
  | .failed => true
  | _ => false

/-- The loop of `handleResumeWithoutSuspend()` is in progress, with the next child `k` and the first
ready one `f`, and no `await_early_cancel()` is: the children that it has got to are terminal. -/
structure Collected (s : State n V Err) (k f : ℕ) : Prop where
  parent : s.parent = false
  calm : ∀ j, calm (s.child j) = true
  visited : ∀ j : Fin n, (j : ℕ) < k ∨ (j : ℕ) = f → settled (s.child j) = true
  asking : ∀ j, .earlyCancel j ∉ s.stack
  loop : ∃ above, s.stack = above ++ [.reportLoop k f]

/-- The same, also while `await_early_cancel()` of a child is in progress: if this child has been got
to, it is the loop that has called it. -/
inductive Collecting (s : State n V Err) (k f : ℕ) : Prop
  | quiet : Collected s k f → Collecting s k f
  | asking (j : Fin n) (below : List Frame) : s.stack = .earlyCancel j :: below →
      s.child j = .notStarted → Collected ({ s with stack := below }.setState j .cancelled) k f →
      ((j : ℕ) < k ∨ (j : ℕ) = f → below = [.reportLoop k f]) → Collecting s k f

/-- How far a mux is whose children are bound. -/
inductive Phase (s : State n V Err) : Prop
  | suspended : s.parent = true → Phase s
  | collecting (k f : ℕ) : Collecting s k f → Phase s
  | done : (∀ j, settled (s.child j) = true) → s.stack = [] → Phase s

variable {k f : ℕ}

theorem Collected.congr (hc : Collected s k f) (hpar : u.parent = s.parent)
    (hch : u.child = s.child) (hst : u.stack = s.stack) : Collected u k f := by
  refine ⟨?_, ?_, ?_, ?_, ?_⟩
  · rw [hpar]
    exact hc.parent
  · rw [hch]
    exact hc.calm
  · rw [hch]
    exact hc.visited
  · rw [hst]
    exact hc.asking
  · rw [hst]
    exact hc.loop

theorem Collected.enter {g : Frame} (hc : Collected s k f) (hg : ∀ j, g ≠ .earlyCancel j) :
    Collected (s.enter g) k f := by
  refine ⟨hc.parent, hc.calm, hc.visited, fun j h => ?_, ?_⟩
  · rcases List.mem_cons.1 h with h | h
    · exact hg j h.symm
    · exact hc.asking j h
  · obtain ⟨above, h⟩ := hc.loop
    exact ⟨g :: above, by rw [State.enter, h, List.cons_append]⟩

theorem Collected.pop {g : Frame} {below : List Frame} (hc : Collected s k f)
    (hst : s.stack = g :: below) (hg : g.isLoop = false) :
    Collected { s with stack := below } k f := by
  refine ⟨hc.parent, hc.calm, hc.visited, fun j h => ?_, ?_⟩
  · exact hc.asking j (hst ▸ List.mem_cons_of_mem g h)
  · obtain ⟨above, h⟩ := hc.loop
    rw [hst] at h
    cases above with
    | nil =>
      cases h
      cases hg
    | cons g' above => exact ⟨above, (List.cons.inj h).2⟩

theorem Collected.move {j : Fin n} {st : HelperState} {l : List Event} (hc : Collected s k f)
    (hcalm : Wait.calm st = true) (hset : settled (s.child j) = true → settled st = true) :
    Collected (s.move j st l) k f := by
  refine ⟨hc.parent, fun i => ?_, fun i hi => ?_, hc.asking, hc.loop⟩
  · by_cases hij : i = j
    · subst hij
      rw [child_move]
      exact hcalm
    · exact (congrArg Wait.calm (Function.update_of_ne hij _ _)).trans (hc.calm i)
  · by_cases hij : i = j
    · subst hij
      rw [child_move]
      exact hset (hc.visited i hi)
    · exact (congrArg settled (Function.update_of_ne hij _ _)).trans (hc.visited i hi)

/-- There is no parent to be resumed. -/
theorem Collected.resumeParent (hc : Collected s k f) : Collected s.resumeParent k f := by
  unfold State.resumeParent
  rw [if_neg (by simp [hc.parent])]
  exact hc

theorem Collected.invokes {err : Option Err} (hc : Collected s k f) (h : Invokes m s err u) :
    Collected u k f := by
  cases h with
  | last =>
    have hu : Collected { s with error := s.errorAfter err, count := s.count + 1 } k f :=
      hc.congr rfl rfl rfl
    exact hu.resumeParent
  | cancels =>
    have hu : Collected { s with error := s.errorAfter err } k f := hc.congr rfl rfl rfl
    exact hu.enter (by simp)
  | counts => exact hc.congr rfl rfl rfl

theorem Collected.muxInvoke {err : Option Err} (hc : Collected s k f) :
    Collected (s.muxInvoke m err) k f :=
  hc.invokes (invokes_muxInvoke m s err)

theorem Collecting.calm (hc : Collecting s k f) (j : Fin n) : Wait.calm (s.child j) = true := by
  cases hc with
  | quiet hc => exact hc.calm j
  | asking i below hst hi hc =>
    by_cases hij : j = i
    · subst hij
      rw [hi]
      rfl
    · have h := hc.calm j
      exact (congrArg Wait.calm (Function.update_of_ne hij _ _)).symm.trans h

/-- Only the loops and `await_early_cancel()` are in control while a child is being asked. -/
theorem Collecting.collected {g : Frame} {below : List Frame} (hc : Collecting s k f)
    (hst : s.stack = g :: below) (hg : ∀ j, g ≠ .earlyCancel j) : Collected s k f := by
  cases hc with
  | quiet hc => exact hc
  | asking i below' hst' =>
    rw [hst] at hst'
    exact absurd (List.cons.inj hst').1 (hg i)

/-- No child has its handle. -/
theorem Collecting.not_holds {j : Fin n} (hc : Collecting s k f) (ht : Tally m R s) :
    holds (s.events j) = false := by
  refine ht.not_holds ?_
  have h := hc.calm j
  constructor <;>
  · intro hj
    rw [hj] at h
    cases h

theorem Collecting.congr (hc : Collecting s k f) (hpar : u.parent = s.parent)
    (hch : u.child = s.child) (hst : u.stack = s.stack) : Collecting u k f := by
  cases hc with
  | quiet hc => exact .quiet (hc.congr hpar hch hst)
  | asking i below hst' hi hc hv =>
    refine .asking i below (hst.trans hst') (by rw [hch, hi]) (hc.congr hpar ?_ rfl) hv
    simp [State.setState, hch]

theorem Collected.ask {j : Fin n} (hc : Collected s k f) (hj : s.child j = .notStarted)
    (hv : (j : ℕ) < k ∨ (j : ℕ) = f → s.stack = [.reportLoop k f]) :
    Collecting ((s.record j .earlyCancel).enter (.earlyCancel j)) k f := by
  refine .asking j s.stack rfl hj ?_ hv
  have hu : Collected (s.move j .cancelled (s.events j ++ [.earlyCancel])) k f :=
    hc.move rfl fun _ => rfl
  exact hu.congr rfl rfl rfl

/-- The loop gets to a child, and takes it to be terminal from now on. -/
structure Reaching (s : State n V Err) (k f : ℕ) (j : Fin n) : Prop where
  parent : s.parent = false
  calm : ∀ i, calm (s.child i) = true
  visited : ∀ i : Fin n, i ≠ j → (i : ℕ) < k ∨ (i : ℕ) = f → settled (s.child i) = true
  stack : s.stack = [.reportLoop k f]

theorem Reaching.move {j : Fin n} {st : HelperState} {l : List Event} (hr : Reaching s k f j)
    (hst : settled st = true) : Collected (s.move j st l) k f := by
  refine ⟨hr.parent, fun i => ?_, fun i hi => ?_, ?_, [], hr.stack⟩
  · by_cases hij : i = j
    · subst hij
      rw [child_move]
      cases st <;> cases hst <;> rfl
    · exact (congrArg Wait.calm (Function.update_of_ne hij _ _)).trans (hr.calm i)
  · by_cases hij : i = j
    · subst hij
      rw [child_move]
      exact hst
    · exact (congrArg settled (Function.update_of_ne hij _ _)).trans (hr.visited i hij hi)
  · intro i
    show _ ∉ s.stack
    simp [hr.stack]

theorem Reaching.take {j : Fin n} {st : HelperState} {l : List Event} (hr : Reaching s k f j) :
    Collected ((s.move j st l).reportResult j) k f := by
  unfold State.reportResult
  rw [setState_move, record_move]
  exact (hr.move rfl).enter (by simp)

theorem Reaching.taken {j : Fin n} (hr : Reaching s k f j) : Collected (s.reportResult j) k f := by
  rw [← move_self (s := s) j]
  exact hr.take

/-- The result of a child is reported by the loop. -/
theorem Reaching.reportImmediateResult {j : Fin n} {must : Bool} (hr : Reaching s k f j)
    (h : s.reportImmediateResult m j must = .ok t) : Collecting t k f := by
  unfold State.reportImmediateResult at h
  by_cases hj : s.child j = .cancellationPending
  · rw [if_pos hj, record_eq, setState_move] at h
    simp only [child_move] at h
    cases must with
    | true =>
      cases h
      exact .quiet hr.take
    | false =>
      cases h
      exact .quiet (hr.move rfl).muxInvoke
  · rw [if_neg hj] at h
    simp only at h
    split at h
    · rename_i hj'
      cases h
      have hc : Collected (s.move j (s.child j) (s.events j)) k f := hr.move (by rw [hj']; rfl)
      rw [move_self] at hc
      exact .quiet hc.muxInvoke
    · rename_i hj'
      split_ifs at h
      · cases h
        exact .quiet hr.taken
      · cases h
        have hc : Collected (s.move j .cancelled (s.events j ++ [.earlyCancel])) k f := hr.move rfl
        exact .asking j [.reportLoop k f] (by rw [State.enter, State.record, hr.stack]) hj'
          (hc.congr rfl rfl hr.stack.symm) fun _ => rfl
    · rename_i hj'
      have hcalm := hr.calm j
      rw [hj'] at hcalm
      cases hcalm
    · cases h

theorem Collected.cancel {cause : Cause} {all : Bool} {j : Fin n} (hc : Collected s k f) :
    Collecting (s.cancel cause all j) k f := by
  have hloop : ∀ b, Collected (s.enter (.cancelLoop cause (j + 1) b)) k f :=
    fun b => hc.enter (by simp)
  unfold State.cancel
  split
  · rename_i hj
    refine (hloop all).ask hj fun hv => ?_
    have hset := hc.visited j hv
    rw [hj] at hset
    cases hset
  · rename_i hj
    have hcalm := hc.calm j
    rw [hj] at hcalm
    cases hcalm
  · exact .quiet (hloop all)
  · exact .quiet (hloop false)

theorem Collected.cancelled {cause : Cause} {all : Bool} (hc : Collected s k f)
    (h : s.cancelled m cause all = .ok t) : Collected t k f := by
  unfold State.cancelled at h
  cases cause with
  | invoke =>
    have hu : Collected { s with count := s.count + 1 } k f := hc.congr rfl rfl rfl
    simp only at h
    split_ifs at h
    · cases h
      exact hu.resumeParent
    · cases h
      exact hu
  | earlyCancel =>
    simp only at h
    split_ifs at h
    cases h
    exact hc.congr rfl rfl rfl
  | awaitCancel =>
    have hu : Collected { s with
        muted := false
        returned := s.returned ++ [(.awaitCancel, all)]
        checker := (s.checker.cancelReturned all).getD s.checker } k f := hc.congr rfl rfl rfl
    simp only at h
    split_ifs at h
    · cases h
      exact hu.resumeParent
    · cases h
      exact hu

/-- Nothing but the loop itself is below it. -/
theorem Collected.eq_of_loop {g : Frame} (hc : Collected s k f) (hst : s.stack = [g]) :
    g = .reportLoop k f := by
  obtain ⟨above, h⟩ := hc.loop
  rw [hst] at h
  cases above with
  | nil => exact (List.cons.inj h).1
  | cons g' above => simp at h

theorem Collecting.next {must : Bool} (hc : Collecting s k f) (hb : Bottom s.stack)
    (h : s.next m must = .ok t) : Phase t := by
  have hempty : ∀ {g : Frame} {below : List Frame}, s.stack = g :: below → g.isLoop = true →
      below = [] := by
    intro g below hst hg
    rw [hst] at hb
    exact hb.1 hg
  unfold State.next at h
  split at h
  · rename_i i below hst
    obtain rfl := hempty hst rfl
    cases (hc.collected hst (by simp)).eq_of_loop hst
  · rename_i cause i all below hst
    have hpop := (hc.collected hst (by simp)).pop hst rfl
    split_ifs at h with hi
    · cases h
      exact .collecting k f hpop.cancel
    · exact .collecting k f (.quiet (hpop.cancelled h))
  · rename_i i first below hst
    obtain rfl := hempty hst rfl
    have hq := hc.collected hst (by simp)
    cases hq.eq_of_loop hst
    split_ifs at h with hk hf
    · cases h
      refine .collecting (k + 1) f (.quiet ⟨hq.parent, hq.calm, fun j hj => hq.visited j ?_, ?_,
        [], rfl⟩)
      · omega
      · simp
    · have hr : Reaching { s with stack := [.reportLoop (k + 1) f] } (k + 1) f ⟨k, hk⟩ := by
        refine ⟨hq.parent, hq.calm, fun j hne hj => hq.visited j ?_, rfl⟩
        have hne' : (j : ℕ) ≠ k := fun h => hne (Fin.ext h)
        omega
      exact .collecting (k + 1) f (hr.reportImmediateResult h)
    · cases takeResults_eq h
      refine .done (fun j => hq.visited j (.inl ?_)) rfl
      have hj := j.isLt
      omega
  · cases h

/-- A child that has not been got to need not be terminal. -/
theorem Collected.unsettle {j : Fin n} (hc : Collected (s.setState j .cancelled) k f)
    (hj : ¬ ((j : ℕ) < k ∨ (j : ℕ) = f)) :
    Collected (s.setState j .cancellationPending) k f := by
  have hoth : ∀ i st, i ≠ j → (s.setState j st).child i = s.child i :=
    fun i st hi => Function.update_of_ne hi _ _
  refine ⟨hc.parent, fun i => ?_, fun i hi => ?_, hc.asking, hc.loop⟩
  · by_cases hij : i = j
    · subst hij
      rw [setState_eq, child_move]
      rfl
    · rw [hoth i _ hij, ← hoth i .cancelled hij]
      exact hc.calm i
  · have hij : i ≠ j := fun h => hj (h ▸ hi)
    rw [hoth i _ hij, ← hoth i .cancelled hij]
    exact hc.visited i hi

theorem Collecting.earlyCancelReturns {done : Bool} (hc : Collecting s k f)
    (h : s.earlyCancelReturns m done = .ok t) : Collecting t k f := by
  unfold State.earlyCancelReturns at h
  split at h
  · rename_i i below hst
    cases hc with
    | quiet hc => exact absurd (by simp [hst]) (hc.asking i)
    | asking j below' hst' hj hc hv =>
      rw [hst'] at hst
      obtain ⟨hij, rfl⟩ := List.cons.inj hst
      cases hij
      simp only at h
      rw [dif_pos j.isLt] at h
      split_ifs at h with hd hb
      · cases h
        exact .quiet (Collected.muxInvoke (hc.congr rfl (by simp [State.setState, State.record]) rfl))
      · cases h
        exact .quiet (hc.congr rfl rfl rfl)
      · split at h
        · cases h
          have hnot : ¬ ((j : ℕ) < k ∨ (j : ℕ) = f) := fun hj => by cases hv hj
          exact .quiet (((hc.unsettle hnot).pop rfl rfl).enter (g := .cancelLoop _ _ false) (by simp))
        · cases h
        · cases h
  · cases h

theorem Collecting.resumeReturns {result : Except Err V} (hc : Collecting s k f)
    (h : s.resumeReturns m result = .ok t) : Collected t k f := by
  unfold State.resumeReturns at h
  split at h
  · rename_i i below hst
    have hpop := (hc.collected hst (by simp)).pop hst rfl
    split_ifs at h with hi
    cases result with
    | ok v =>
      cases h
      exact Collected.muxInvoke (hpop.congr rfl rfl rfl)
    | error err =>
      cases h
      rw [setState_eq]
      exact (hpop.move rfl fun _ => rfl).muxInvoke
  · cases h

theorem Collecting.cancelReturns {done : Bool} (hc : Collecting s k f) (ht : Tally m R s)
    (h : s.cancelReturns m done = .ok t) : Collected t k f := by
  unfold State.cancelReturns at h
  split at h
  · rename_i j cause i all below hst
    have hpop := (hc.collected hst (by simp)).pop hst rfl
    split_ifs at h with hj hd hh hab
    · rw [hc.not_holds ht] at hh
      cases hh
    · cases h
      exact (hpop.pop rfl rfl).enter (g := .cancelLoop _ _ _) (by simp)
  · cases h

theorem Collecting.internal {a : Action n V Err} (hc : Collecting s k f) (ht : Tally m R s)
    (h : s.internal m a = .ok t) : Phase t := by
  cases a with
  | next => exact hc.next ht.bottom h
  | becomesReady =>
    cases h
    exact .collecting k f (hc.congr rfl rfl rfl)
  | resumes =>
    simp only [State.internal] at h
    split_ifs at h with hh
    rw [hc.not_holds ht] at hh
    cases hh.2.1
  | suspendReturns =>
    simp only [State.internal] at h
    split at h
    · rename_i hst
      cases h
      exact .collecting k f (.quiet ((hc.collected hst (by simp)).pop hst rfl))
    · cases h
  | suspendThrows =>
    simp only [State.internal, State.suspendThrows] at h
    split at h
    · split_ifs at h with hi hh
      rw [hc.not_holds ht] at hh
      cases hh
    · cases h
  | earlyCancelReturns => exact .collecting k f (hc.earlyCancelReturns h)
  | cancelReturns => exact .collecting k f (.quiet (hc.cancelReturns ht h))
  | resumeReturns => exact .collecting k f (.quiet (hc.resumeReturns h))
  | parentReturns =>
    simp only [State.internal] at h
    split at h
    · rename_i hst
      cases h
      exact .collecting k f (.quiet ((hc.collected hst (by simp)).pop hst rfl))
    · cases h
  | _ => cases h

/-! ### The parent's handle -/

@[simp] theorem parent_resumeParent : s.resumeParent.parent = s.parent := by
  unfold State.resumeParent
  split_ifs <;> rfl

theorem parent_of_invokes {err : Option Err} (h : Invokes m s err u) : u.parent = s.parent := by
  cases h with
  | last => exact parent_resumeParent
  | cancels | counts => rfl

@[simp] theorem parent_muxInvoke (err : Option Err) : (s.muxInvoke m err).parent = s.parent :=
  parent_of_invokes (invokes_muxInvoke m s err)

theorem parent_of_helperInvoke {j : Fin n} {must : Bool} (h : s.helperInvoke m j must = .ok t) :
    t.parent = s.parent := by
  unfold State.helperInvoke at h
  split at h
  · simp only at h
    split_ifs at h <;> cases h
    · rfl
    · exact parent_muxInvoke none
  · cases h
    rfl
  · cases h
    rfl
  · cases h

theorem parent_of_suspend {j : Fin n} {must : Bool} (h : s.suspend m j must = .ok t) :
    t.parent = s.parent := by
  have hkick : s.kickOff m j must = .ok t → t.parent = s.parent := by
    intro h
    unfold State.kickOff at h
    simp only at h
    split_ifs at h
    · exact (parent_of_helperInvoke h).trans rfl
    · cases h
      rfl
    · exact (parent_of_helperInvoke h).trans rfl
    · cases h
      rfl
  unfold State.suspend at h
  split at h
  · exact hkick h
  · exact hkick h
  · cases h
    exact parent_muxInvoke none
  · cases h

theorem parent_of_reportImmediateResult {j : Fin n} {must : Bool}
    (h : s.reportImmediateResult m j must = .ok t) : t.parent = s.parent := by
  unfold State.reportImmediateResult at h
  simp only at h
  split at h
  · cases h
    rw [parent_muxInvoke]
    split_ifs <;> rfl
  · split_ifs at h <;> cases h <;> rfl
  · cases h
    split_ifs <;> rfl
  · cases h

theorem parent_of_next {must : Bool} (h : s.next m must = .ok t) : t.parent = s.parent := by
  unfold State.next at h
  split at h
  · split_ifs at h
    · exact (parent_of_suspend h).trans rfl
    · cases h
      rfl
  · split_ifs at h
    · cases h
      unfold State.cancel
      split <;> rfl
    · unfold State.cancelled at h
      split at h
      · split_ifs at h <;> cases h
        · exact parent_resumeParent
        · rfl
      · split_ifs at h
        cases h
        rfl
      · simp only at h
        split_ifs at h <;> cases h
        · exact parent_resumeParent
        · rfl
  · simp only at h
    split_ifs at h
    · cases h
      rfl
    · exact (parent_of_reportImmediateResult h).trans rfl
    · cases takeResults_eq h
      rfl
  · cases h

theorem parent_of_internal {a : Action n V Err} (h : s.internal m a = .ok t) :
    t.parent = s.parent := by
  cases a with
  | next => exact parent_of_next h
  | becomesReady =>
    cases h
    rfl
  | resumes =>
    simp only [State.internal] at h
    split_ifs at h
    exact (parent_of_helperInvoke h).trans rfl
  | suspendReturns | parentReturns =>
    simp only [State.internal] at h
    split at h
    · cases h
      rfl
    · cases h
  | suspendThrows =>
    simp only [State.internal, State.suspendThrows] at h
    split at h
    · split_ifs at h
      cases h
      exact parent_muxInvoke _
    · cases h
  | earlyCancelReturns =>
    simp only [State.internal, State.earlyCancelReturns] at h
    split at h
    · split_ifs at h
      · cases h
        exact parent_muxInvoke none
      · cases h
        rfl
      · split at h <;> cases h
        rfl
    · cases h
  | cancelReturns =>
    simp only [State.internal, State.cancelReturns] at h
    split at h
    · split_ifs at h <;> cases h
      · exact parent_muxInvoke none
      · rfl
    · cases h
  | resumeReturns r =>
    simp only [State.internal, State.resumeReturns] at h
    split at h
    · split_ifs at h
      cases r <;> cases h <;> exact parent_muxInvoke _
    · cases h
  | _ => cases h

/-! ### The runs -/

/-- The children are not bound to the mux yet. -/
structure Fresh (m : Kind n) (s : State n V Err) : Prop where
  bound : s.bound = false
  parent : s.parent = false
  child : ∀ j, s.child j = .notStarted
  events : ∀ j, s.events j = []
  error : s.error = none
  stack : s.stack = []
  checker : s.checker.state = .initial ∨ s.checker.state = .notReady ∨
    s.checker.state = .readyImmediately
  willing : s.checker.state = .readyImmediately → Willing m s

theorem fresh_init : Fresh m (State.init : State n V Err) where
  bound := rfl
  parent := rfl
  child := fun _ => rfl
  events := fun _ => rfl
  error := rfl
  stack := rfl
  checker := .inl rfl
  willing := fun h => by cases h

/-- What is known about a mux in a run in which the children have reported `R`. -/
def Known (m : Kind n) (R : List (Fin n × Except Err V)) (s : State n V Err) : Prop :=
  Fresh m s ∧ R = [] ∨ Tally m R s ∧ Phase s

/-- The mux is ready without suspension. -/
theorem willing_of_awaitReady (h : s.awaitReady m = .ok true) : Willing m s := by
  unfold State.awaitReady at h
  split_ifs at h
  obtain ⟨hcount, hall⟩ := of_decide_eq_true (Except.ok.inj h)
  intro j hj
  rcases hall j with hr | hskip
  · rw [hj] at hr
    exact .inl (Option.some.inj hr)
  · by_cases hany : m.combiner = .anyOf
    · exact .inr ⟨hany, hskip⟩
    · -- All children are ready.
      rw [minReady_eq hany] at hcount
      have hlen : (List.finRange n).countP (fun j => isReady (s.ready j) (s.child j) = some true) =
          (List.finRange n).length := by
        refine le_antisymm List.countP_le_length ?_
        simpa using hcount
      have hr := List.countP_eq_length.1 hlen j (List.mem_finRange j)
      rw [decide_eq_true_eq, hj] at hr
      exact .inl (Option.some.inj hr)

theorem Fresh.setChecker {c : Checker} (hf : Fresh m s)
    (hc : c.state = .initial ∨ c.state = .notReady ∨ c.state = .readyImmediately)
    (hw : c.state = .readyImmediately → Willing m s) : Fresh m { s with checker := c } :=
  { hf with checker := hc, willing := hw }

/-- The children are bound in `await_suspend()`. -/
theorem Fresh.tally_suspended {c : Checker} (hf : Fresh m s) (hc : c.state = .running) :
    Tally m [] ({ s with checker := c, bound := true, parent := true }.enter (.suspendLoop 0)) := by
  have hu : Tally m [] { s with checker := c, bound := true, parent := true } := by
    refine ⟨rfl, .inl hc, ?_, fun j h => ?_, fun j h => ?_, fun j => ?_, fun j h => ?_, fun j h => ?_,
      fun j h => ?_, fun j r h => ?_, hf.error, ?_, ?_, ?_, ?_⟩
    · show Bottom s.stack
      rw [hf.stack]
      trivial
    · show unstarted (s.child j) = true
      rw [hf.child]
      rfl
    · simp [hf.stack] at h
    · simp [hf.stack]
    · rw [hf.events] at h
      cases h
    · rw [hf.child] at h
      cases h
    · rw [hf.child] at h
      cases h
    · cases h
    · rintro (⟨j, h⟩ | ⟨f, h, -⟩)
      · rw [hf.child] at h
        cases h
      · simp [hf.stack] at h
    all_goals
      rintro ⟨f, h, -⟩
      simp [hf.stack] at h
  exact hu.enter (by simp) (fun _ => hf.stack) (by simp) (by simp [Frame.cancels]) rfl

/-- The children are bound in `handleResumeWithoutSuspend()`, and the result of the first one that is
ready is taken. -/
theorem Fresh.tally_ready {c : Checker} {j : Fin n} (hf : Fresh m s) (hc : c.state = .done)
    (hw : Willing m s) :
    Tally m [] (({ s with checker := c, bound := true }.enter (.reportLoop 0 j)).reportResult j) := by
  set u := ({ s with checker := c, bound := true }.enter (.reportLoop 0 j)).reportResult j with hu
  have hself : u.child j = .succeeded := Function.update_self _ _ _
  have hch : ∀ i, i ≠ j → u.child i = .notStarted :=
    fun i hi => (Function.update_of_ne hi _ _).trans (hf.child i)
  have hstack : u.stack = [.awaitResume j, .reportLoop 0 j] := by
    show Frame.awaitResume j :: .reportLoop 0 j :: s.stack = _
    rw [hf.stack]
  have hev : ∀ i, holds (u.events i) = false := by
    intro i
    by_cases hi : i = j
    · subst hi
      have hi : u.events i = s.events i ++ [.resume] := Function.update_self _ _ _
      rw [hi, hf.events]
      rfl
    · have hi : u.events i = s.events i := Function.update_of_ne hi _ _
      rw [hi, hf.events]
      rfl
  refine ⟨rfl, .inr (.inr hc), ?_, fun i h => ?_, fun i h => ?_, fun i => ?_, fun i h => ?_,
    fun i h => ?_, fun i h => ?_, fun i r h => ?_, hf.error, fun h => ?_, fun _ => ?_,
    fun _ i hi => ?_, fun _ => hf.parent⟩
  · rw [hstack]
    simp [Bottom, Frame.isLoop]
  · simp [hstack] at h
  · rw [hstack] at h
    obtain rfl : i = j := by simpa [Fin.ext_iff] using h
    exact ⟨hself, by simp⟩
  · rw [hstack]
    simp only [List.count_cons, List.count_nil]
    split_ifs <;> simp_all
  · rw [hev] at h
    cases h
  · by_cases hi : i = j
    · subst hi
      rw [hself] at h
      cases h
    · rw [hch i hi] at h
      cases h
  · by_cases hi : i = j
    · subst hi
      simp [hstack]
    · rw [hch i hi] at h
      cases h
  · cases h
  · rcases h with ⟨i, hi⟩ | ⟨f, hmem, hcan⟩
    · by_cases hij : i = j
      · subst hij
        rw [hself] at hi
        cases hi
      · rw [hch i hij] at hi
        cases hi
    · rw [hstack] at hmem
      have : f = .awaitResume j ∨ f = .reportLoop 0 j := by simpa using hmem
      rcases this with rfl | rfl <;> cases hcan
  · exact ⟨j, by rw [hself]; rfl⟩
  · exact hw i (hf.child i)

/-- The loop has got to this child only. -/
theorem Fresh.collected_ready (c : Checker) {j : Fin n} (hf : Fresh m s) :
    Collected (({ s with checker := c, bound := true }.enter (.reportLoop 0 j)).reportResult j)
      0 j := by
  have hstack : ({ s with checker := c, bound := true }.enter (.reportLoop 0 j)).stack =
      [.reportLoop 0 j] := by
    show Frame.reportLoop 0 j :: s.stack = _
    rw [hf.stack]
  have hr : Reaching ({ s with checker := c, bound := true }.enter (.reportLoop 0 j)) 0 j j := by
    refine ⟨hf.parent, fun i => ?_, fun i hij hi => ?_, hstack⟩
    · show Wait.calm (s.child i) = true
      rw [hf.child]
      rfl
    · have hij' : (i : ℕ) ≠ j := fun h => hij (Fin.ext h)
      omega
  exact hr.taken

theorem firstReady_ready {j : Fin n} (h : s.firstReady = some j) :
    isReady (s.ready j) (s.child j) = some true := by
  simpa using List.find?_some h

theorem Fresh.resumeWithoutSuspend {c : Checker} {must : Bool} (hf : Fresh m s)
    (h : { s with checker := c }.resumeWithoutSuspend m must = .ok t) :
    ∃ j, s.firstReady = some j ∧
      t = (({ s with checker := c, bound := true }.enter (.reportLoop 0 j)).reportResult j) := by
  unfold State.resumeWithoutSuspend at h
  split_ifs at h with hb
  · have hb' := hf.bound
    rw [hb'] at hb
    cases hb
  simp only at h
  split at h
  · cases h
  · rename_i j hj
    have hj' : s.firstReady = some j := hj
    have hchild : s.child j = .notStarted := hf.child j
    have hready := firstReady_ready hj'
    rw [hchild] at hready
    have hready : s.ready j = true := Option.some.inj hready
    refine ⟨j, hj', ?_⟩
    simp only [State.reportImmediateResult, State.enter, hchild, hready, reduceCtorEq,
      if_true, if_false] at h
    cases h
    rfl

theorem Fresh.prepare {a : Action n V Err} (hf : Fresh m s) (hg : Uncancelled s a)
    (h : s.prepare m a = .ok t) : Known m [] t := by
  cases a with
  | awaitReady =>
    obtain ⟨val, hval, h⟩ := bind_eq_ok.1 h
    obtain ⟨c, hc, rfl⟩ := check_eq h
    refine .inl ⟨hf.setChecker ?_ fun hr => ?_, rfl⟩
    · rcases hf.checker with hs | hs | hs <;> cases val <;>
        simp only [Checker.readyReturned, hs, if_true, Bool.false_eq_true, if_false, reduceCtorEq,
          Option.some.injEq] at hc <;> subst hc <;> simp [Checker.set, hs]
    · cases told_of_readyReturned hc (by rw [hr]; rfl)
      exact willing_of_awaitReady hval
  | awaitEarlyCancel => exact hg.elim
  | awaitSetExecutor =>
    obtain ⟨c, hc, rfl⟩ := check_eq h
    have hst : c.state = s.checker.state := by
      unfold Checker.aboutToSetExecutor at hc
      split at hc <;> cases hc <;> rfl
    exact .inl ⟨hf.setChecker (hst ▸ hf.checker) fun hr => hf.willing (hst ▸ hr), rfl⟩
  | awaitSuspend =>
    obtain ⟨u, hu, h⟩ := bind_eq_ok.1 h
    obtain ⟨c, hc, rfl⟩ := check_eq hu
    cases h
    refine .inr ⟨hf.tally_suspended ?_, .suspended rfl⟩
    unfold Checker.aboutToSuspend at hc
    split_ifs at hc
    rcases hf.checker with hs | hs | hs <;> rw [hs] at hc <;> cases hc
    rfl
  | _ => cases h

theorem Fresh.perform {a : Action n V Err} (hf : Fresh m s) (hg : Uncancelled s a)
    (h : s.perform m a = .ok t) : Tally m [] t ∧ Phase t := by
  cases a with
  | awaitCancel => exact hg.elim
  | awaitMustResume must =>
    obtain ⟨⟨answer, u⟩, hu, h⟩ := bind_eq_ok.1 h
    obtain ⟨c, hc, -⟩ := check_eq h
    have hu' : u.checker = s.checker := by
      unfold State.awaitMustResume at hu
      simp only at hu
      split_ifs at hu <;> cases hu <;> rfl
    unfold Checker.mustResumeReturned at hc
    rw [hu'] at hc
    rcases hf.checker with hs | hs | hs <;> simp [hs] at hc
  | awaitResume must =>
    obtain ⟨u, hu, h⟩ := bind_eq_ok.1 h
    obtain ⟨c, hc, rfl⟩ := check_eq hu
    unfold Checker.aboutToResume at hc
    split_ifs at hc with hs
    cases hc
    have hr : s.checker.state = .readyImmediately := by
      rcases hs with hs | hs
      · exact hs
      · rcases hf.checker with h | h | h <;> rw [hs] at h <;> cases h
    obtain ⟨j, -, rfl⟩ := hf.resumeWithoutSuspend h
    exact ⟨hf.tally_ready rfl (hf.willing hr), .collecting 0 j (.quiet (hf.collected_ready _))⟩
  | _ => cases h

theorem Fresh.step {a : Action n V Err} (hf : Fresh m s) (hg : Uncancelled s a)
    (h : step m s a = .ok t) : Known m [] t ∧ reported s a = none := by
  have hnone : reported s a = none := by
    unfold reported
    rw [hf.stack]
    split <;> simp_all
  refine ⟨?_, hnone⟩
  unfold Wait.step at h
  split at h
  · cases a with
    | becomesReady j =>
      cases h
      refine .inl ⟨{ hf with willing := fun hr i hi => ?_ }, rfl⟩
      refine (hf.willing hr i hi).imp_left fun hi' => ?_
      by_cases hij : i = j
      · subst hij
        exact Function.update_self _ _ _
      · exact (Function.update_of_ne hij _ _).trans hi'
    | resumes j =>
      simp only [State.internal] at h
      split_ifs at h with hh
      have hh' := hh.2.1
      rw [hf.events] at hh'
      cases hh'
    | next | suspendReturns | suspendThrows | earlyCancelReturns | cancelReturns | resumeReturns
    | parentReturns =>
      simp [State.internal, State.next, State.suspendThrows, State.earlyCancelReturns,
        State.cancelReturns, State.resumeReturns, hf.stack] at h
    | _ => cases h
  · split_ifs at h
    exact hf.prepare hg h
  · split_ifs at h
    exact .inr (hf.perform hg h)

/-- The parent, which is in `await_suspend()` or has been resumed, does not do any more than to take
the result. -/
theorem Tally.prepare {a : Action n V Err} (ht : Tally m R s) (hg : Uncancelled s a)
    (h : s.prepare m a = .ok t) : False := by
  have hc := ht.checker
  cases a with
  | awaitReady =>
    obtain ⟨val, -, h⟩ := bind_eq_ok.1 h
    obtain ⟨c, h, -⟩ := check_eq h
    rcases hc with hs | hs | hs <;> simp [Checker.readyReturned, hs] at h
  | awaitEarlyCancel => exact hg
  | awaitSetExecutor =>
    obtain ⟨c, h, -⟩ := check_eq h
    rcases hc with hs | hs | hs <;> simp [Checker.aboutToSetExecutor, hs] at h
  | awaitSuspend =>
    obtain ⟨u, hu, h⟩ := bind_eq_ok.1 h
    obtain ⟨c, hu, -⟩ := check_eq hu
    rcases hc with hs | hs | hs <;> simp [Checker.aboutToSuspend, hs] at hu
  | _ => cases h

theorem Tally.perform {a : Action n V Err} (ht : Tally m R s) (hg : Uncancelled s a)
    (h : s.perform m a = .ok t) : ∃ c, t = { s with checker := c } ∧ c.state = .done := by
  have hc := ht.checker
  cases a with
  | awaitCancel => exact hg.elim
  | awaitMustResume must =>
    obtain ⟨⟨answer, u⟩, hu, h⟩ := bind_eq_ok.1 h
    obtain ⟨c, h, -⟩ := check_eq h
    have hu' : u.checker = s.checker := by
      unfold State.awaitMustResume at hu
      simp only at hu
      split_ifs at hu <;> cases hu <;> rfl
    unfold Checker.mustResumeReturned at h
    rw [hu'] at h
    rcases hc with hs | hs | hs <;> simp [hs] at h
  | awaitResume must =>
    obtain ⟨u, hu, h⟩ := bind_eq_ok.1 h
    obtain ⟨c, hc, rfl⟩ := check_eq hu
    unfold Checker.aboutToResume at hc
    split_ifs at hc
    cases hc
    unfold State.resumeWithoutSuspend at h
    split_ifs at h with hb
    · exact ⟨_, takeResults_eq h, rfl⟩
    · exact absurd ht.bound hb
  | _ => cases h

theorem Tally.step {a : Action n V Err} (ht : Tally m R s) (hg : Uncancelled s a)
    (h : step m s a = .ok t) : Tally m (R ++ (reported s a).toList) t := by
  unfold Wait.step at h
  split at h
  · exact ht.internal h
  · split_ifs at h
    exact (ht.prepare hg h).elim
  · rename_i ha
    split_ifs at h
    obtain ⟨c, rfl, hc⟩ := ht.perform hg h
    have hnone : reported s a = none := by
      cases a <;> first | rfl | cases ha
    rw [hnone]
    simpa using ht.setChecker (.inr (.inr hc))

theorem Phase.step {a : Action n V Err} (hp : Phase s) (ht : Tally m R s) (hg : Uncancelled s a)
    (h : step m s a = .ok t) : Phase t := by
  unfold Wait.step at h
  split at h
  · cases hp with
    | suspended hpar => exact .suspended ((parent_of_internal h).trans hpar)
    | collecting k f hc => exact hc.internal ht h
    | done hset hst =>
      cases a with
      | becomesReady j =>
        cases h
        exact .done hset hst
      | resumes j =>
        simp only [State.internal] at h
        split_ifs at h with hh
        have hset := hset j
        rcases ht.holding j hh.2.1 with hj | hj <;> rw [hj] at hset <;> cases hset
      | next | suspendReturns | suspendThrows | earlyCancelReturns | cancelReturns | resumeReturns
      | parentReturns =>
        simp [State.internal, State.next, State.suspendThrows, State.earlyCancelReturns,
          State.cancelReturns, State.resumeReturns, hst] at h
      | _ => cases h
  · split_ifs at h
    exact (ht.prepare hg h).elim
  · split_ifs at h
    obtain ⟨c, rfl, -⟩ := ht.perform hg h
    cases hp with
    | suspended hpar => exact .suspended hpar
    | collecting k f hc => exact .collecting k f (hc.congr rfl rfl rfl)
    | done hset hst => exact .done hset hst

theorem known_of_run {l : List (State n V Err × Action n V Err)}
    (h : Run (step m) Uncancelled .init l t) : Known m (events reported l) t := by
  refine h.invariant (I := fun l t => Known m (events reported l) t) (.inl ⟨fresh_init, rfl⟩)
    fun l s a t hk hg hs => ?_
  rw [events_concat]
  rcases hk with ⟨hf, hnil⟩ | ⟨ht, hp⟩
  · obtain ⟨hk, hnone⟩ := hf.step hg hs
    rw [hnil, hnone]
    exact hk
  · exact .inr ⟨ht.step hg hs, hp.step ht hg hs⟩

/-! ### The results -/

theorem firstError_isSome : (firstError R).isSome = true ↔ ∃ j e, (j, .error e) ∈ R := by
  unfold firstError
  rw [List.findSome?_isSome_iff]
  constructor
  · rintro ⟨⟨j, r⟩, hmem, h⟩
    cases r with
    | ok v => cases h
    | error e => exact ⟨j, e, hmem⟩
  · rintro ⟨j, e, hmem⟩
    exact ⟨(j, .error e), hmem, rfl⟩

/-- The mux has an error if and only if some child has failed. -/
theorem Tally.error_iff (ht : Tally m R s) : s.error.isSome = true ↔ ∃ j, s.child j = .failed := by
  rw [ht.error, firstError_isSome]
  constructor
  · rintro ⟨j, e, hmem⟩
    exact ⟨j, ht.agrees j _ hmem⟩
  · rintro ⟨j, hj⟩
    obtain ⟨e, hmem⟩ := ht.failed j hj
    exact ⟨j, e, hmem⟩

/-- A child whose result has been taken has reported it. -/
theorem Tally.reported_iff {j : Fin n} (ht : Tally m R s) (hj : .awaitResume (j : ℕ) ∉ s.stack)
    (v : V) : s.child j = .succeeded ∧ s.storage j = Option.some v ↔ (j, .ok v) ∈ R := by
  constructor
  · rintro ⟨hc, hv⟩
    rcases ht.value j hc with h | ⟨v', hmem⟩
    · exact absurd h hj
    · have hv' := (ht.agrees j _ hmem).2
      rw [hv] at hv'
      cases hv'
      exact hmem
  · exact ht.agrees j _

/-- Without an error no child of a mux other than `anyOf()` has been cancelled. -/
theorem Tally.all_succeeded (ht : Tally m R s) (hover : ∀ j, Over s j) (hm : m.combiner ≠ .anyOf)
    (he : s.error = none) (j : Fin n) : s.child j = .succeeded := by
  rcases (hover j).1 with hj | hj | hj
  · have hr := ht.reason (.inl ⟨j, by rw [hj]; rfl⟩)
    unfold Reason at hr
    rw [if_neg hm, he] at hr
    cases hr
  · exact hj
  · have hsome := ht.error_iff.2 ⟨j, hj⟩
    rw [he] at hsome
    cases hsome

/-- Without an error some child has succeeded. -/
theorem Tally.some_succeeded (ht : Tally m R s) (hover : ∀ j, Over s j) (hn : 0 < n)
    (he : s.error = none) : ∃ j, s.child j = .succeeded := by
  have hfailed : ∀ j, s.child j ≠ .failed := by
    intro j hj
    have hsome := ht.error_iff.2 ⟨j, hj⟩
    rw [he] at hsome
    cases hsome
  by_cases hm : m.combiner = .anyOf
  · rcases (hover ⟨0, hn⟩).1 with hj | hj | hj
    · have hr := ht.reason (.inl ⟨⟨0, hn⟩, by rw [hj]; rfl⟩)
      unfold Reason at hr
      rw [if_pos hm] at hr
      obtain ⟨i, hi⟩ := hr
      rcases (hover i).1 with hi' | hi' | hi'
      · rw [hi'] at hi
        cases hi
      · exact ⟨i, hi'⟩
      · exact absurd hi' (hfailed i)
    · exact ⟨_, hj⟩
    · exact absurd hj (hfailed _)
  · exact ⟨⟨0, hn⟩, ht.all_succeeded hover hm he _⟩

/-- No assertion fails when the results are taken. -/
theorem Tally.takeResults (ht : Tally m R s) (hover : ∀ j, Over s j) :
    s.takeResults m = .ok s := by
  unfold State.takeResults
  rw [if_neg]
  rintro ⟨he, j, hj, hor⟩
  rw [Option.isNone_iff_eq_none] at he
  rcases hor with hall | hne
  · exact hj (ht.all_succeeded hover (by simp [hall]) he j)
  · rcases (hover j).1 with h | h | h
    · exact hne h
    · exact hj h
    · have hsome := ht.error_iff.2 ⟨j, h⟩
      rw [he] at hsome
      cases hsome

/-- The result of a mux whose children have reported `R`. -/
structure Results (m : Kind n) (R : List (Fin n × Except Err V)) (s : State n V Err) : Prop where
  /-- no assertion fails -/
  takes : s.takeResults m = .ok s
  /-- an error if and only if some child has failed -/
  error : (∃ e, s.wrapped = .error e) ↔ ∃ j, s.child j = .failed
  /-- the error that was reported first -/
  first : ∀ e, s.wrapped = .error e ↔ firstError R = some e
  /-- otherwise the slots of the children that have succeeded -/
  engaged : ∀ slots, s.wrapped = .ok slots → ∀ j, (slots j).isSome = true ↔ s.child j = .succeeded
  /-- with their values -/
  values : ∀ slots, s.wrapped = .ok slots → ∀ j v, slots j = some v ↔ (j, .ok v) ∈ R
  /-- and at least one of them -/
  some : ∀ slots, s.wrapped = .ok slots → ∃ j, (slots j).isSome = true
  /-- or all of them -/
  all : m.combiner ≠ .anyOf → ∀ slots, s.wrapped = .ok slots → ∀ j, s.child j = .succeeded

theorem wrapped_eq_error {e : Err} : s.wrapped = .error e ↔ s.error = some e := by
  unfold State.wrapped
  cases s.error <;> simp

theorem wrapped_eq_ok {slots : Fin n → Option V} : s.wrapped = .ok slots ↔ s.error = none ∧
    slots = fun j => if s.child j = .succeeded then s.storage j else none := by
  unfold State.wrapped
  cases s.error <;> simp [eq_comm]

theorem Tally.results (ht : Tally m R s) (hover : ∀ j, Over s j) (hn : 0 < n) : Results m R s := by
  have hengaged : ∀ slots, s.wrapped = .ok slots → ∀ j,
      (slots j).isSome = true ↔ s.child j = .succeeded := by
    intro slots hs j
    obtain ⟨-, rfl⟩ := wrapped_eq_ok.1 hs
    simp only
    split_ifs with hj
    · refine ⟨fun _ => hj, fun _ => ?_⟩
      rcases ht.value j hj with h | ⟨v, hmem⟩
      · exact absurd h (hover j).2
      · rw [(ht.agrees j _ hmem).2]
        rfl
    · simp [hj]
  refine ⟨ht.takeResults hover, ?_, fun e => ?_, hengaged, fun slots hs j v => ?_,
    fun slots hs => ?_, fun hm slots hs j => ?_⟩
  · rw [← ht.error_iff, Option.isSome_iff_exists]
    simp only [wrapped_eq_error]
  · rw [wrapped_eq_error, ht.error]
  · obtain ⟨-, rfl⟩ := wrapped_eq_ok.1 hs
    rw [← ht.reported_iff (hover j).2]
    simp only
    split_ifs with hj <;> simp [hj]
  · obtain ⟨j, hj⟩ := ht.some_succeeded hover hn (wrapped_eq_ok.1 hs).1
    exact ⟨j, (hengaged slots hs j).2 hj⟩
  · exact ht.all_succeeded hover hm (wrapped_eq_ok.1 hs).1 j

/-- The loop of `handleResumeWithoutSuspend()` has got to all children. -/
theorem Tally.over_of_loop {below : List Frame} {i first : ℕ} (ht : Tally m R s) (hp : Phase s)
    (hst : s.stack = .reportLoop i first :: below) (hi : n ≤ i) (j : Fin n) : Over s j := by
  have hb := ht.bottom
  rw [hst] at hb
  obtain rfl := hb.1 rfl
  have hset : settled (s.child j) = true := by
    cases hp with
    | suspended hpar =>
      rw [ht.unsuspended ⟨.reportLoop i first, by simp [hst], rfl⟩] at hpar
      cases hpar
    | collecting k f hc =>
      have hq := hc.collected hst (by simp)
      cases hq.eq_of_loop hst
      exact hq.visited j (.inl (by omega))
    | done hset => exact hset j
  refine ⟨?_, by simp [hst]⟩
  revert hset
  cases s.child j <;> simp [settled]

/-- In every run of a mux over at least one child in which the parent does not cancel it, what
`await_resume()` yields when all children are terminal follows from what the children have
reported, in the order in which they have reported it.  If the parent has not been suspended, all
children are terminal once `handleResumeWithoutSuspend()` has got to all of them. -/
theorem results_of_over {l : List (State n V Err × Action n V Err)} (hn : 0 < n)
    (h : Run (step m) Uncancelled .init l t) :
    ((∀ j, Over t j) → Results m (events reported l) t) ∧
    ∀ i first below, t.stack = .reportLoop i first :: below → n ≤ i → ∀ j, Over t j := by
  rcases known_of_run h with ⟨hf, -⟩ | ⟨ht, hp⟩
  · refine ⟨fun hover => ?_, fun i first below hst => ?_⟩
    · rcases (hover ⟨0, hn⟩).1 with hj | hj | hj <;> rw [hf.child] at hj <;> cases hj
    · rw [hf.stack] at hst
      cases hst
  · exact ⟨fun hover => ht.results hover hn, fun i first below hst hi => ht.over_of_loop hp hst hi⟩

/-- Two children that are both ready: the first result is taken without suspension; the second child
does not confirm its cancellation at once, but does not insist on a result either. -/
def takesFirst (first second : Fin 2) : List (Action 2 ℕ ℕ) :=
  [.becomesReady first, .becomesReady second, .awaitReady, .awaitResume true,
    .resumeReturns (.ok 7), .next true, .next true, .earlyCancelReturns false, .next true,
    .next true, .next false]

theorem events_takesFirst :
    events reported (history (step (anyOf 2)) (.init : State 2 ℕ ℕ) (takesFirst 0 1)) =
      [(0, .ok 7)] := by
  decide +kernel

theorem results_of_over_takesFirst :
    ∃ t, exec (step (anyOf 2)) (.init : State 2 ℕ ℕ) (takesFirst 0 1) = .ok t ∧
      t.child 1 = .cancelled ∧ Results (anyOf 2) [(0, .ok 7)] t := by
  have hm : Meets (step (anyOf 2)) Uncancelled (.init : State 2 ℕ ℕ) (takesFirst 0 1) := by decide
  have hrun : ∃ t, exec (step (anyOf 2)) (.init : State 2 ℕ ℕ) (takesFirst 0 1) = .ok t ∧
      t.child 1 = .cancelled ∧ ∃ i f below, t.stack = .reportLoop i f :: below ∧ 2 ≤ i :=
    ⟨_, rfl, rfl, 2, 0, [], rfl, le_rfl⟩
  obtain ⟨t, he, hc, i, f, below, hst, hi⟩ := hrun
  obtain ⟨hres, hover⟩ := results_of_over (by decide) (run_of_exec hm he)
  rw [events_takesFirst] at hres
  exact ⟨t, he, hc, hres (hover i f below hst hi)⟩

end Corral.Wait
