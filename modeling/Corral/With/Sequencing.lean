import Corral.With.Closing

/-!
# The order of the cancellations of a `with()` scope

The second stage is to be cancelled and destroyed before the first stage is asked to cancel itself.
It is not if it confirms its cancellation at once, because `cancelStage()` then goes on with the
first stage and leaves the object in place; nor if the parent is cancelled while the second stage is
being made or waits to be begun, or is being closed, because `doCancel()` then goes for the first
stage.

* `State.Gone`: the second stage does not exist, and nothing is in progress that belongs to its end;
* `Sequential`: the runs without such a step;
* `Sequenced`: what holds in them;
* `second_before_first`: the order.
-/

namespace Corral.With

open ActionMachine AwaiterStateChecker

variable {Err : Type*} {s t u : State Err}

/-! ### The statement -/

/-- The calls that belong to the end of the second stage. -/
def Frame.closesSecond : Frame Err → Bool
  | .mustResume .second _ => true
  | .result _ => true
  | .destroySecond _ _ => true
  | .destroyThrown _ _ _ => true
  | _ => false

/-- The second stage is being closed. -/
def State.closesSecond (s : State Err) : Bool := s.stack.any Frame.closesSecond

/-- The object of the second stage does not exist, and nothing of its end is in progress. -/
def State.Gone (s : State Err) : Prop :=
  s.second.built = false ∧ ∀ f ∈ s.stack, f.closesSecond = false

/-- A confirmation of the stage that is being asked would leave the object of the second stage in
place while the scope is being cancelled. -/
def State.leavesSecond (s : State Err) : Bool :=
  match s.stack with
  | .cancelStage .second _ (.doCancelSecond _) :: _ => true
  | .cancelStage .second _ (.onStageDone _) :: _ => s.cancelling
  | _ => false

/-- The parent is not cancelled while `then()` runs, and only after the first stage has ended while
the second one has not been begun or is being closed; the first stage does not resume its handle while
the scope is being cancelled and the second stage is being closed; and the second stage does not
confirm at once in `doCancel()`, or in `onStageDone()` while the scope is being cancelled. -/
def Sequential (s : State Err) : Action Err → Prop
  | .awaitCancel => s.inThen = false ∧
      (s.first.done = false → s.isIn .second .idle = false ∧ s.closesSecond = false)
  | .resumes w => w = .first → s.cancelling = true → s.closesSecond = false
  | .earlyCancelReturns done => done = true → s.leavesSecond = false
  | .cancelReturns done => done = true → s.leavesSecond = false
  | _ => True

instance (s : State Err) : (a : Action Err) → Decidable (Sequential s a)
  | .awaitCancel => inferInstanceAs (Decidable (_ ∧ _))
  | .resumes _ => inferInstanceAs (Decidable (_ → _ → _))
  | .earlyCancelReturns _ => inferInstanceAs (Decidable (_ → _))
  | .cancelReturns _ => inferInstanceAs (Decidable (_ → _))
  | .firstReturns | .firstThrows | .started | .thenReturns | .thenThrows _ | .answers _ _
  | .suspendReturns | .suspendThrows _ | .mustResumeReturns _ | .resultReturns | .resultThrows _
  | .secondDestroyed | .awaitReady | .awaitEarlyCancel | .awaitSetExecutor | .awaitSuspend
  | .awaitMustResume | .awaitResume | .destroy => isTrue trivial

/-! ### The end of the second stage -/

theorem closesSecond_eq_false : s.closesSecond = false ↔ ∀ f ∈ s.stack, f.closesSecond = false := by
  simp [State.closesSecond]

theorem closes_of_closesSecond {f : Frame Err} (h : f.closesSecond = true) :
    f.closes .second = true ∨ f.destroys = true := by
  cases f with
  | mustResume w both => cases w <;> first | exact .inl rfl | cases h
  | result both => exact .inl rfl
  | destroySecond stage both => exact .inr rfl
  | destroyThrown err w both => exact .inr rfl
  | _ => cases h

/-- While the second stage exists and has not ended, it is not being closed. -/
theorem Core.not_closesSecond (hc : Core s) (hb : s.second.built = true)
    (hd : s.second.done = false) : ∀ f ∈ s.stack, f.closesSecond = false := by
  intro f hf
  by_contra h
  rcases closes_of_closesSecond (by simpa using h) with h | h
  · cases (hc.not_closes_of_alive (w := .second) (hc.alive_of_built hb hd) f hf).symm.trans h
  · cases hb.symm.trans (hc.gone f hf h).2

theorem Core.not_closesSecond_of_maySignal (hc : Core s) (hm : s.maySignal = true) :
    ∀ f ∈ s.stack, f.closesSecond = false := by
  intro f hf
  by_contra h
  rcases closes_of_closesSecond (by simpa using h) with h | h
  · cases (hc.not_closes_of_maySignal (w := .second) hm f hf).symm.trans h
  · exact (hc.gone f hf h).1 (hc.unsignalled (unsignalled_of_maySignal hm)).1

/-- A stage that has thrown waits for the destruction of the second one. -/
theorem Core.closesSecond_of_threw {w : Which} (hc : Core s) (h : (s.get w).life = .threw) :
    ∃ f ∈ s.stack, f.closesSecond = true := by
  obtain ⟨err, both, hf⟩ := hc.mem_of_threw h
  exact ⟨_, hf, rfl⟩

theorem not_gone_of_built (hb : s.second.built = true) : ¬ s.Gone :=
  fun h => by cases h.1.symm.trans hb

theorem not_gone_of_top {f : Frame Err} {below : List (Frame Err)} (hst : s.stack = f :: below)
    (hf : f.closesSecond = true) : ¬ s.Gone :=
  fun h => by cases (h.2 f (mem_top hst)).symm.trans hf

/-! ### The invariant -/

structure SequencedBut (s : State Err) : Prop where
  asked : s.first.asked = true ∨ s.cancelling = false ∧ s.first.cancelling = true →
    s.Gone ∧ (s.second.life = .new ∨ s.second.life = .ended)
  thenFn : ∀ f ∈ s.stack, f.isThen = true → s.cancelling = false ∧ s.first.cancelling = false
  resumed : .resumed ∈ s.finishes → s.cancelling = true → s.Gone
  isOver : .resumed ∈ s.finishes → isOver s.checker.state = true
  readyAfterCancel : s.checker.state = .readyAfterCancel → s.Gone
  ready : s.checker.state = .readyImmediately → s.Gone ∧ s.second.done = true
  top : ∀ f ∈ s.stack.tail, f.closesSecond = false

/-- In addition, the first stage has been asked if the scope is being cancelled and there is no second
one; the object of the second stage is destroyed before that one ends only if the first one has ended
or thrown; and it stays after that one has ended only until it has been closed, or if the parent has
been resumed. -/
structure Sequenced (s : State Err) : Prop extends SequencedBut s where
  cancelled : s.cancelling = true → s.signalled = false →
    s.first.cancelling = true ∨ s.first.done = true
  lost : s.second.built = false → s.second.life = .idle ∨ s.second.life = .running →
    s.first.done = true ∨ s.first.life = .threw ∨ s.first.built = false ∧ s.first.life ≠ .new
  ended : s.second.life = .ended → s.second.built = true →
    .resumed ∈ s.finishes ∨ ∃ f ∈ s.stack, f.closesSecond = true

theorem sequenced_init : Sequenced (State.init : State Err) where
  asked := fun h => by rcases h with h | ⟨-, h⟩ <;> cases h
  thenFn := List.forall_mem_singleton.2 fun h => by cases h
  resumed := fun h => by cases h
  isOver := fun h => by cases h
  readyAfterCancel := fun h => by cases h
  ready := fun h => by cases h
  top := fun f h => by cases h
  cancelled := fun h => by cases h
  lost := fun _ h => by rcases h with h | h <;> cases h
  ended := fun h => by cases h

/-- Below the top of the stack nothing closes the second stage. -/
theorem SequencedBut.none_below {f : Frame Err} {below : List (Frame Err)} (hk : SequencedBut s)
    (hst : s.stack = f :: below) : ∀ g ∈ below, g.closesSecond = false := by
  have h := hk.top
  rw [hst] at h
  exact h

theorem gone_pop {f : Frame Err} {below : List (Frame Err)} (hst : s.stack = f :: below)
    (h : s.Gone) : ({ s with stack := below } : State Err).Gone :=
  ⟨h.1, fun g hg => h.2 g (hst ▸ List.mem_cons_of_mem f hg)⟩

theorem SequencedBut.pop {f : Frame Err} {below : List (Frame Err)} (hk : SequencedBut s)
    (hst : s.stack = f :: below) : SequencedBut { s with stack := below } where
  asked := fun h => (hk.asked h).imp (gone_pop hst) id
  thenFn := fun g hg => hk.thenFn g (hst ▸ List.mem_cons_of_mem f hg)
  resumed := fun h₁ h₂ => gone_pop hst (hk.resumed h₁ h₂)
  isOver := hk.isOver
  readyAfterCancel := fun h => gone_pop hst (hk.readyAfterCancel h)
  ready := fun h => (hk.ready h).imp (gone_pop hst) id
  top := fun g hg => hk.none_below hst g (List.mem_of_mem_tail hg)

/-- A call returns that does not close the second stage. -/
theorem Sequenced.pop {f : Frame Err} {below : List (Frame Err)} (hk : Sequenced s)
    (hst : s.stack = f :: below) (hf : f.closesSecond = false) :
    Sequenced { s with stack := below } :=
  { hk.toSequencedBut.pop hst with
    cancelled := hk.cancelled
    lost := hk.lost
    ended := fun h₁ h₂ => (hk.ended h₁ h₂).imp id fun ⟨g, hg, h⟩ => (by
      rcases List.mem_cons.1 (hst ▸ hg) with rfl | hg
      · cases hf.symm.trans h
      · exact ⟨g, hg, h⟩) }

theorem gone_enter {f : Frame Err} (hf : f.closesSecond = false) (h : s.Gone) : (s.enter f).Gone :=
  ⟨h.1, List.forall_mem_cons.2 ⟨hf, h.2⟩⟩

/-- A call is made that does not close the second stage. -/
theorem Sequenced.enter {f : Frame Err} (hk : Sequenced s)
    (hthen : f.isThen = true → s.cancelling = false ∧ s.first.cancelling = false)
    (hf : f.closesSecond = false) (hnone : ∀ g ∈ s.stack, g.closesSecond = false) :
    Sequenced (s.enter f) where
  asked := fun h => (hk.asked h).imp (gone_enter hf) id
  thenFn := List.forall_mem_cons.2 ⟨hthen, hk.thenFn⟩
  resumed := fun h₁ h₂ => gone_enter hf (hk.resumed h₁ h₂)
  isOver := hk.isOver
  readyAfterCancel := fun h => gone_enter hf (hk.readyAfterCancel h)
  ready := fun h => (hk.ready h).imp (gone_enter hf) id
  top := hnone
  cancelled := hk.cancelled
  lost := hk.lost
  ended := fun h₁ h₂ => (hk.ended h₁ h₂).imp id fun ⟨g, hg, h⟩ => ⟨g, List.mem_cons_of_mem f hg, h⟩

/-- What is known while the second stage exists or is being closed. -/
structure Unclosed (s : State Err) : Prop where
  asked : s.first.asked = false
  cancelling : s.cancelling = false → s.first.cancelling = false
  resumed : .resumed ∈ s.finishes → s.cancelling = false
  isOver : .resumed ∈ s.finishes → isOver s.checker.state = true
  readyAfterCancel : s.checker.state ≠ .readyAfterCancel
  ready : s.checker.state ≠ .readyImmediately

theorem SequencedBut.unclosed (hk : SequencedBut s) (hng : ¬ s.Gone) : Unclosed s where
  asked := by
    by_contra h
    exact hng (hk.asked (.inl (by simpa using h))).1
  cancelling := fun hcan => by
    by_contra h
    exact hng (hk.asked (.inr ⟨hcan, by simpa using h⟩)).1
  resumed := fun hr => by
    by_contra h
    exact hng (hk.resumed hr (by simpa using h))
  isOver := hk.isOver
  readyAfterCancel := fun h => hng (hk.readyAfterCancel h)
  ready := fun h => hng (hk.ready h).1

/-- Nothing else is known of the second stage. -/
theorem Unclosed.sequencedBut (hu : Unclosed s) (hnot : ∀ f ∈ s.stack, f.isThen = false)
    (htop : ∀ f ∈ s.stack.tail, f.closesSecond = false) : SequencedBut s where
  asked := fun h => by
    rcases h with h | ⟨h, h'⟩
    · cases hu.asked.symm.trans h
    · cases (hu.cancelling h).symm.trans h'
  thenFn := fun f hf h => absurd ((hnot f hf).symm.trans h) (by simp)
  resumed := fun h₁ h₂ => absurd ((hu.resumed h₁).symm.trans h₂) (by simp)
  isOver := hu.isOver
  readyAfterCancel := fun h => absurd h hu.readyAfterCancel
  ready := fun h => absurd h hu.ready
  top := htop

/-- The second stage begins to be closed, or goes on to be. -/
theorem Unclosed.close {f : Frame Err} (hu : Unclosed s) (hsig : s.signalled = true)
    (hnot : ∀ g ∈ s.stack, g.isThen = false) (hthen : f.isThen = false) (hf : f.closesSecond = true)
    (hnone : ∀ g ∈ s.stack, g.closesSecond = false)
    (hlost : s.second.life = .idle ∨ s.second.life = .running → s.first.life = .threw) :
    Sequenced (s.enter f) := by
  have hv : Unclosed (s.enter f) := { hu with }
  exact { hv.sequencedBut (List.forall_mem_cons.2 ⟨hthen, hnot⟩) hnone with
    cancelled := fun _ h => absurd (hsig.symm.trans h) (by simp)
    lost := fun _ h => .inr (.inl (hlost h))
    ended := fun _ _ => .inr ⟨f, List.mem_cons_self, hf⟩ }

/-- The second stage has ended, and has been closed. -/
theorem Unclosed.closed (hc : Core s) (hu : Unclosed s) (hend : s.second.life = .ended)
    (hgone : s.Gone) : Sequenced s :=
  { hu.sequencedBut (hc.not_then (by simp [hend])) fun f hf => hgone.2 f (List.mem_of_mem_tail hf) with
    cancelled := fun _ h =>
      absurd ((hc.signalled_of_second (by simp [hend])).symm.trans h) (by simp)
    lost := fun _ h => by rcases h with h | h <;> cases hend.symm.trans h
    ended := fun _ h => absurd (hgone.1.symm.trans h) (by simp) }

/-- The second stage has ended, and is destroyed. -/
theorem Unclosed.destroySecond {stage : Stage Err} {both : Bool} (hc : Core s) (hu : Unclosed s)
    (hend : s.second.life = .ended) (hnone : ∀ f ∈ s.stack, f.closesSecond = false) :
    Sequenced (s.destroySecond stage both) := by
  have hne : s.second.life ≠ .new := by simp [hend]
  have hleave : Unclosed s.leave := { hu with }
  refine hleave.close (hc.signalled_of_second hne) (hc.not_then hne) rfl rfl hnone ?_
  rintro (h | h) <;> cases hend.symm.trans h

theorem resumed_eq_readyAfterCancel {c : Checker}
    (h : (c.resumed.getD c).state = .readyAfterCancel) : askedToCancel c.state = true := by
  obtain ⟨st, ex⟩ := c
  cases st <;> first | rfl | cases h

theorem resumed_ne_readyImmediately {c : Checker} (hb : before c.state = false) :
    (c.resumed.getD c).state ≠ .readyImmediately := by
  obtain ⟨st, ex⟩ := c
  cases st <;> simp [before, Checker.resumed, Checker.set] at hb ⊢

theorem Sequenced.resumeParent (hc : Core s) (hk : Sequenced s)
    (hgone : s.cancelling = true → s.Gone) : Sequenced s.resumeParent := by
  unfold State.resumeParent
  split_ifs with hp
  · have hbef := (hc.parented hp).2
    exact { hk with
      resumed := fun _ => hgone
      isOver := fun _ => isOver_resumed hbef
      readyAfterCancel := fun h => hgone (hc.asked (resumed_eq_readyAfterCancel h))
      ready := fun h => absurd h (resumed_ne_readyImmediately hbef)
      ended := fun h₁ h₂ => (hk.ended h₁ h₂).imp (List.mem_append_left _) id }
  · exact hk

/-! ### Stages that are asked, or end -/

/-- The first stage is asked to cancel itself after the second one. -/
theorem Sequenced.askFirst {caller : Caller} (hk : Sequenced s)
    (hnot : ∀ f ∈ s.stack, f.isThen = false) (hnone : ∀ f ∈ s.stack, f.closesSecond = false)
    (hb : s.first.started = true ∨ s.cancelling = false →
      s.second.built = false ∧ (s.second.life = .new ∨ s.second.life = .ended)) :
    Sequenced ({ s with first := { s.first with
      cancelling := true, asked := s.first.started } }.enter
        (.cancelStage .first (!s.first.started) caller)) := by
  have hu : Sequenced { s with first := { s.first with
      cancelling := true, asked := s.first.started } } := { hk with
    asked := fun h => (hb (h.imp id And.left)).imp (fun h => ⟨h, hnone⟩) id
    thenFn := fun f hf h => absurd ((hnot f hf).symm.trans h) (by simp)
    cancelled := fun _ _ => .inl rfl }
  exact hu.enter (fun h => by cases h) rfl hnone

theorem Sequenced.askSecond {caller : Caller} {early a : Bool} (hk : Sequenced s)
    (hnone : ∀ f ∈ s.stack, f.closesSecond = false) :
    Sequenced ({ s with second := { s.second with cancelling := true, asked := a } }.enter
      (.cancelStage .second early caller)) := by
  have hu : Sequenced { s with second := { s.second with cancelling := true, asked := a } } :=
    { hk with }
  exact hu.enter (fun h => by cases h) rfl hnone

/-- The second stage is done and not being closed, and the parent has not been resumed before. -/
theorem Sequenced.gone_of_done (hc : Core s) (hk : Sequenced s)
    (hres : .resumed ∈ s.finishes → s.second.built = false) (hd : s.second.done = true)
    (hnone : ∀ f ∈ s.stack, f.closesSecond = false) : s.Gone := by
  refine ⟨?_, hnone⟩
  by_contra hb
  have hb' : s.second.built = true := by simpa using hb
  rcases hc.second.done hd with h | h
  · rcases hk.ended h hb' with hr | ⟨f, hf, h⟩
    · exact hb (hres hr)
    · cases (hnone f hf).symm.trans h
  · exact hc.second.built hb' h

theorem Sequenced.joins {w : Which} {both ret : Bool} (hc : Core s) (hk : Sequenced s)
    (hend : (s.get w).life = .ended) (hgone : w = .second → s.Gone)
    (hnone : w = .first → s.cancelling = true → ∀ f ∈ s.stack, f.closesSecond = false)
    (h : Joins s w both u ret) : Sequenced u := by
  cases w with
  | first =>
    cases h with
    | last hor =>
      refine hk.resumeParent hc fun hcan => ?_
      rcases hor with hd | ⟨-, he⟩
      · exact hk.gone_of_done hc (fun hr => (hk.resumed hr hcan).1) hd (hnone rfl hcan)
      · exact ⟨hc.built.trans he, hnone rfl hcan⟩
    | waits => exact hk
    | asks hd _ _ hb => exact hk.askSecond (hc.not_closesSecond hb hd)
  | second =>
    have hl : s.second.life = .ended := hend
    cases h with
    | last => exact hk.resumeParent hc fun _ => hgone rfl
    | waits => exact hk
    | asks =>
      exact hk.askFirst (hc.not_then (by simp [hl])) (hgone rfl).2 fun _ => ⟨(hgone rfl).1, .inr hl⟩

/-- The second stage is asked for its result or destroyed, or has been destroyed before. -/
theorem Unclosed.settles {both ret : Bool} (hc : Core s) (hu : Unclosed s)
    (hend : s.second.life = .ended) (hnone : ∀ f ∈ s.stack, f.closesSecond = false)
    (h : Settles s .second both u ret) : Sequenced u := by
  have hne : s.second.life ≠ .new := by simp [hend]
  have hlost : s.second.life = .idle ∨ s.second.life = .running → s.first.life = .threw := by
    rintro (h | h) <;> cases hend.symm.trans h
  cases h with
  | destroys => exact hu.destroySecond hc hend hnone
  | takes =>
    exact hu.close (hc.signalled_of_second hne) (hc.not_then hne) rfl rfl hnone hlost
  | joins hno hj =>
    have hgone : s.Gone := ⟨hc.built.trans (hno rfl), hnone⟩
    exact (hu.closed hc hend hgone).joins (w := .second) hc hend (fun _ => hgone) (by simp) hj

/-- The first stage ends. -/
theorem SequencedBut.endFirst (hk : SequencedBut s)
    (hended : s.second.life = .ended → s.second.built = true →
      .resumed ∈ s.finishes ∨ ∃ f ∈ s.stack, f.closesSecond = true) : Sequenced (s.finish .first) :=
  { hk with
    cancelled := fun _ _ => .inr rfl
    lost := fun _ _ => .inl rfl
    ended := hended }

theorem SequencedBut.endsFirst {both ret : Bool} (hc : Core (s.finish .first)) (hk : SequencedBut s)
    (hended : s.second.life = .ended → s.second.built = true →
      .resumed ∈ s.finishes ∨ ∃ f ∈ s.stack, f.closesSecond = true)
    (hnone : s.cancelling = true → ∀ f ∈ s.stack, f.closesSecond = false)
    (h : Ends s .first both u ret) : Sequenced u := by
  have hu := hk.endFirst hended
  cases h with
  | asks _ hcan =>
    refine hu.enter (fun h => by cases h) rfl ?_
    by_cases hs : s.cancelling = true
    · exact hnone hs
    · exact (hk.asked (.inr ⟨by simpa using hs, hcan⟩)).1.2
  | settles h =>
    cases h with
    | destroys hw => cases hw
    | takes hw => cases hw
    | joins _ h => exact hu.joins hc rfl (by simp) (fun _ => hnone) h

/-- The second stage ends. -/
theorem SequencedBut.endsSecond {both ret : Bool} (hc : Core s) (hk : SequencedBut s)
    (hal : s.second.life.alive = true) (hb : s.second.built = true)
    (h : Ends s .second both u ret) : Sequenced u := by
  have hcf : Core (s.finish .second) := hc.finish (not_new_of_alive hal) (not_threw_of_alive hal)
  have hd : s.second.done = false := by
    by_contra hd
    cases (alive_of_done hc.second (by simpa using hd)).symm.trans hal
  have hu : Unclosed (s.finish .second) := { hk.unclosed (not_gone_of_built hb) with }
  have hnone := hc.not_closesSecond hb hd
  have hend : (s.finish .second).second.life = .ended := rfl
  cases h with
  | asks =>
    have hne : (s.finish .second).second.life ≠ .new := by simp [hend]
    refine hu.close (hcf.signalled_of_second hne) (hcf.not_then hne) rfl rfl hnone ?_
    rintro (h | h) <;> cases h
  | settles h => exact hu.settles hcf hend hnone h

/-- A stage that is alive ends. -/
theorem Sequenced.ends {w : Which} {life : Life} {both ret : Bool} (hc : Core s) (hk : Sequenced s)
    (hin : s.isIn w life = true) (hal : life.alive = true)
    (hnone : w = .first → s.cancelling = true → ∀ f ∈ s.stack, f.closesSecond = false)
    (h : Ends s w both u ret) : Sequenced u := by
  have hal' := alive_of_isIn hin hal
  cases w with
  | first =>
    exact hk.toSequencedBut.endsFirst (hc.finish (not_new_of_alive hal') (not_threw_of_alive hal'))
      hk.ended (hnone rfl) h
  | second => exact hk.toSequencedBut.endsSecond hc hal' (isIn_iff.1 hin).1 h

theorem Sequenced.readies {w : Which} {both ret : Bool} (hc : Core s) (hk : Sequenced s)
    (hnone : w = .first → ∀ f ∈ s.stack, f.closesSecond = false)
    (h : Readies s w both u ret) : Sequenced u := by
  cases h with
  | ready hin he => exact hk.ends hc hin rfl (fun hw _ => hnone hw) he
  | suspends hin =>
    obtain ⟨hb, hidle⟩ := isIn_iff.1 hin
    cases w with
    | first =>
      have hl : s.first.life = .idle := hidle
      have hu : Sequenced { s with first := { s.first with started := true, life := .running } } :=
        { hk with
          lost := fun h₁ h₂ => (hk.lost h₁ h₂).imp id fun h => (by
            rcases h with h | h
            · cases hl.symm.trans h
            · exact .inr ⟨h.1, by simp⟩) }
      exact hu.enter (fun h => by cases h) rfl (hnone rfl)
    | second =>
      have hl : s.second.life = .idle := hidle
      have hd : s.second.done = false := by
        by_contra hd
        have hno := alive_of_done hc.second (by simpa using hd)
        rw [hl] at hno
        cases hno
      have hu : Sequenced { s with
          second := { s.second with started := true, life := .running } } := { hk with
        asked := fun h => absurd (hk.asked h).2 (by simp [hl])
        ended := fun h => (by cases h)
        lost := fun h => absurd (h.symm.trans hb) (by simp) }
      exact hu.enter (fun h => by cases h) rfl (hc.not_closesSecond hb hd)

theorem Sequenced.begins {w : Which} {both ret : Bool} (hc : Core s) (hk : Sequenced s)
    (hnot : w = .first → ∀ f ∈ s.stack, f.isThen = false)
    (hnone : w = .first → ∀ f ∈ s.stack, f.closesSecond = false)
    (h : Begins s w both u ret) : Sequenced u := by
  cases h with
  | done => exact hk
  | early hd hcan _ hb =>
    cases w with
    | first =>
      have hu : Sequenced { s with first := { s.first with cancelling := true } } := { hk with
        asked := fun h => hk.asked (h.imp id fun h => absurd (h.1.symm.trans hcan) (by simp))
        thenFn := fun f hf h => absurd ((hnot rfl f hf).symm.trans h) (by simp)
        cancelled := fun _ _ => .inl rfl }
      exact hu.enter (fun h => by cases h) rfl (hnone rfl)
    | second =>
      have hu : Sequenced { s with second := { s.second with cancelling := true } } := { hk with }
      exact hu.enter (fun h => by cases h) rfl (hc.not_closesSecond hb hd)
  | readies _ _ hr => exact hk.readies hc hnone hr

/-- The second stage is begun if it is to be. -/
theorem Sequenced.next {both ret : Bool} (hc : Core u) (hk : Sequenced u)
    (hcont : Continues (State.next both) u ret t) : Sequenced t := by
  rcases next_cases hcont with ⟨rfl, -⟩ | ⟨-, -, ret', hb⟩
  · exact hk
  · exact hk.begins hc (by simp) (by simp) hb

/-! ### The parent -/

theorem cancelReturned_eq_readyAfterCancel {c : Checker} {early done : Bool}
    (h : ((if early then c.earlyCancelReturned done else c.cancelReturned done).getD c).state =
      .readyAfterCancel) : c.state = .readyAfterCancel ∨ c.state = .readyImmediately := by
  obtain ⟨st, ex⟩ := c
  cases early <;> cases done <;> cases st <;> first | exact .inl rfl | exact .inr rfl | cases h

theorem cancelReturned_eq_readyImmediately {c : Checker} {early done : Bool}
    (h : ((if early then c.earlyCancelReturned done else c.cancelReturned done).getD c).state =
      .readyImmediately) : c.state = .readyImmediately := by
  obtain ⟨st, ex⟩ := c
  cases early <;> cases done <;> cases st <;> first | rfl | cases h

theorem Sequenced.cancelReturned {early done : Bool} (hk : Sequenced s) :
    Sequenced (s.cancelReturned early done) := by
  have hfin : .resumed ∈ (s.cancelReturned early done).finishes ↔ .resumed ∈ s.finishes := by
    unfold State.cancelReturned
    cases done <;> simp
  exact { hk with
    resumed := fun h => hk.resumed (hfin.1 h)
    isOver := fun h => isOver_cancelReturned (hk.isOver (hfin.1 h))
    readyAfterCancel := fun h => (cancelReturned_eq_readyAfterCancel h).elim hk.readyAfterCancel
      fun h => (hk.ready h).1
    ready := fun h => hk.ready (cancelReturned_eq_readyImmediately h)
    ended := fun h₁ h₂ => (hk.ended h₁ h₂).imp hfin.2 id }

/-- While the second stage is not being closed, no stage has thrown. -/
theorem Core.not_threw (hc : Core s) (hnone : ∀ f ∈ s.stack, f.closesSecond = false) (w : Which) :
    (s.get w).life ≠ .threw := by
  intro h
  obtain ⟨f, hf, h⟩ := hc.closesSecond_of_threw h
  cases (hnone f hf).symm.trans h

/-- A second stage that is alive has its object until the first one has ended. -/
theorem Sequenced.not_alive (hc : Core s) (hk : Sequenced s) (hb : s.first.built = true)
    (hd : s.first.done = false) (hnb : s.second.built = false)
    (hnone : ∀ f ∈ s.stack, f.closesSecond = false) : s.second.life.alive = false := by
  have hlost : ¬ (s.second.life = .idle ∨ s.second.life = .running) := by
    intro hl
    rcases hk.lost hnb hl with h | h | ⟨h, -⟩
    · cases hd.symm.trans h
    · exact hc.not_threw hnone .first h
    · cases hb.symm.trans h
  cases hl : s.second.life with
  | idle => exact (hlost (.inl hl)).elim
  | running => exact (hlost (.inr hl)).elim
  | _ => rfl

/-- When the first stage is asked on behalf of the parent, the second one is out of the way. -/
theorem Sequenced.clear (hc : Core s) (hk : Sequenced s) (hno : .resumed ∉ s.finishes)
    (hb : s.first.built = true) (hd : s.first.done = false) (hidle : s.isIn .second .idle = false)
    (hnone : ∀ f ∈ s.stack, f.closesSecond = false) (hrun : s.second.isRunning = false) :
    s.second.built = false ∧ (s.second.life = .new ∨ s.second.life = .ended) := by
  have hthrew : s.second.life ≠ .threw := hc.not_threw hnone .second
  have hnb : s.second.built = false := by
    by_contra h
    have hb' : s.second.built = true := by simpa using h
    cases hl : s.second.life with
    | new => exact hc.second.built hb' hl
    | idle => cases hidle.symm.trans (isIn_iff.2 ⟨hb', hl⟩)
    | running => exact hc.not_running hrun hl
    | threw => exact hthrew hl
    | ended =>
      rcases hk.ended hl hb' with h | ⟨f, hf, h⟩
      · exact hno h
      · cases (hnone f hf).symm.trans h
  have hal := hk.not_alive hc hb hd hnb hnone
  refine ⟨hnb, ?_⟩
  cases hl : s.second.life with
  | new => exact .inl rfl
  | threw => exact absurd hl hthrew
  | ended => exact .inr rfl
  | _ => rw [hl] at hal; cases hal

/-- `doCancel()`.  What `Sequenced` says of the first stage holds only afterwards. -/
theorem Sequenced.doCancels {c : Checker} {early : Bool} (hc : Core s) (hk : Sequenced s)
    (hu : SequencedBut { s with checker := c, cancelling := true }) (hno : .resumed ∉ s.finishes)
    (hnot : ∀ f ∈ s.stack, f.isThen = false)
    (hidle : s.first.done = false → s.first.started = true → s.isIn .second .idle = false)
    (hnone : s.first.done = false → ∀ f ∈ s.stack, f.closesSecond = false)
    (h : DoCancels { s with checker := c, cancelling := true } early t) : Sequenced t := by
  have hrun : s.second.isRunning = true →
      Sequenced { s with checker := c, cancelling := true } := by
    intro hr
    have hne : s.second.life ≠ .new := by
      rcases hc.alive_of_running hr with h | h
      · exact not_new_of_alive h
      · simp [h]
    exact { hu with
      cancelled := fun _ h => absurd ((hc.signalled_of_second hne).symm.trans h) (by simp)
      lost := hk.lost
      ended := hk.ended }
  cases h with
  | again hr => exact (hrun hr).cancelReturned
  | gone hr _ hgone h =>
    cases h with
    | returns => exact (hrun hr).cancelReturned
    | asks _ hd hb =>
      -- Its object is gone although it runs, so the first stage has ended.
      rcases hc.alive_of_running hr with h | h
      · cases (hk.not_alive hc hb hd (hc.built.trans hgone) (hnone hd)).symm.trans h
      · exact (hc.not_threw (hnone hd) .second h).elim
  | asks hr _ hb =>
    have hd : s.second.done = false := by
      simp only [StageState.isRunning, Bool.and_eq_true, Bool.not_eq_true'] at hr
      exact hr.2
    exact (hrun hr).askSecond (hc.not_closesSecond hb hd)
  | first hr h =>
    cases h with
    | @returns done h₁ h₂ =>
      have hs : Sequenced { s with checker := c, cancelling := true } := { hu with
        cancelled := fun _ _ => (by
          cases done with
          | true => exact .inr (h₁ rfl).1
          | false => exact .inl (h₂ rfl))
        lost := hk.lost
        ended := hk.ended }
      exact hs.cancelReturned
    | asks hcan hd hb =>
      have hs : Sequenced { s with
          first := { s.first with cancelling := true, asked := s.first.started }
          checker := c
          cancelling := true } := { hu with
        asked := fun h => ?_
        thenFn := fun f hf h => absurd ((hnot f hf).symm.trans h) (by simp)
        cancelled := fun _ _ => .inl rfl
        lost := hk.lost
        ended := hk.ended }
      · exact hs.enter (fun h => by cases h) rfl (hnone hd)
      · rcases h with h | ⟨h, -⟩
        · obtain ⟨hb', hl⟩ := hk.clear hc hno hb hd (hidle hd h) (hnone hd) hr
          exact ⟨⟨hb', hnone hd⟩, hl⟩
        · cases h

/-! ### Making the stages -/

/-- While `then()` runs the scope is not being cancelled. -/
theorem SequencedBut.unclosed_of_thenFn {executor : Bool} {below : List (Frame Err)} (hc : Core s)
    (hk : SequencedBut s) (hst : s.stack = .thenFn executor :: below) : Unclosed s := by
  obtain ⟨hcan, hfirst⟩ := hk.thenFn _ (mem_top hst) rfl
  refine ⟨?_, fun _ => hfirst, fun _ => hcan, hk.isOver, fun h => ?_, fun h => ?_⟩
  · by_contra h
    cases hfirst.symm.trans (hc.first.asked (by simpa using h)).1
  · cases hcan.symm.trans (hc.asked (by rw [h]; rfl))
  · cases (hc.thenFn _ (mem_top hst) rfl).2.symm.trans (hk.ready h).2

theorem Sequenced.made {executor : Bool} {below : List (Frame Err)} (hc : Core s) (hk : Sequenced s)
    (hst : s.stack = .thenFn executor :: below) : Sequenced ({ s with stack := below }.made) := by
  obtain ⟨hcan, -⟩ := hk.thenFn _ (mem_top hst) rfl
  have hu : Unclosed ({ s with stack := below }.made) := { hk.unclosed_of_thenFn hc hst with }
  exact { hu.sequencedBut (not_then_of_countP (hc.opened hst rfl).2) (hk.pop hst rfl).top with
    cancelled := fun h => absurd (hcan.symm.trans h) (by simp)
    lost := fun h => (by cases h)
    ended := fun h => (by cases h) }

theorem Sequenced.threw {executor : Bool} {below : List (Frame Err)} {err : Err} (hk : Sequenced s)
    (hst : s.stack = .thenFn executor :: below) :
    Sequenced { s with stack := below, stage := .exception err, thrown := some err } :=
  { hk.pop hst rfl with }

theorem Sequenced.constructs {below : List (Frame Err)} (hc : Core s) (hk : Sequenced s)
    (hst : s.stack = .construct :: below) :
    Sequenced { s with stack := below, first := { s.first with life := .idle, built := true } } := by
  have hnew := hc.construct _ (mem_top hst) rfl
  refine { hk.pop hst rfl with
    lost := fun h₁ h₂ => ?_ }
  rcases hk.lost h₁ h₂ with h | h | ⟨-, h⟩
  · exact .inl h
  · cases hnew.symm.trans h
  · exact absurd hnew h

theorem Sequenced.signals (hc : Core s) (hk : Sequenced s) (hm : s.maySignal = true)
    (hd : s.first.done = false) (hno : s.first.cancelling = false) :
    Sequenced ({ s with signalled := true, stage := .none }.enter (.thenFn s.stage.isFirst)) := by
  have hcan : s.cancelling = false := by
    by_contra h
    rcases hk.cancelled (by simpa using h) (unsignalled_of_maySignal hm) with h | h
    · cases hno.symm.trans h
    · cases hd.symm.trans h
  have hu : Sequenced { s with signalled := true, stage := .none } :=
    { hk with cancelled := fun _ h => by cases h }
  exact hu.enter (fun _ => ⟨hcan, hno⟩) rfl (hc.not_closesSecond_of_maySignal hm)

theorem Sequenced.making {a : Action Err} (hc : Core s) (hk : Sequenced s) (h : Making s a t) :
    Sequenced t := by
  cases h with
  | constructs hst => exact hk.constructs hc hst
  | ignored =>
    exact { hk with
      cancelled := fun _ h => (by cases h)
      ready := fun h => ⟨(hk.ready h).1, rfl⟩ }
  | signals hm hd hno => exact hk.signals hc hm hd hno
  | makes hst => exact hk.made hc hst
  | makesBegins hst _ hb => exact (hk.made hc hst).begins (hc.made hst) (by simp) (by simp) hb
  | makesCancels hst hcan =>
    cases (hk.thenFn _ (mem_top hst) rfl).1.symm.trans hcan
  | throwsWaits hst hcan =>
    cases (hk.thenFn _ (mem_top hst) rfl).2.symm.trans hcan
  | throwsLast hst =>
    refine (hk.threw hst).resumeParent (hc.thenThrew _ hst) fun h => ?_
    cases (hk.thenFn _ (mem_top hst) rfl).1.symm.trans h
  | throwsAsks hst =>
    have hnew := (hc.thenFn _ (mem_top hst) rfl).1
    exact (hk.threw hst).askFirst (not_then_of_countP (hc.opened hst rfl).2) (hk.none_below hst)
      fun _ => ⟨hc.built_of_thenFn hst, .inl hnew⟩

/-! ### Answers -/

theorem sequential_answer {early : Bool} (h : Sequential s (answer early true)) :
    s.leavesSecond = false := by
  cases early <;> exact h rfl

theorem Sequenced.refuse {w : Which} {no : Bool} (hk : Sequenced s) : Sequenced (s.refuse w no) := by
  cases w with
  | first => exact { hk with }
  | second => exact { hk with }

/-- A call returns, and the second stage is begun if it is to be. -/
theorem Sequenced.nextPop {f : Frame Err} {below : List (Frame Err)} {both : Bool} (hc : Core s)
    (hk : Sequenced s) (hst : s.stack = f :: below) (hth : ∀ w, f.isThrown w = false)
    (hf : f.closesSecond = false)
    (hcont : Continues (State.next both) { s with stack := below } true t) : Sequenced t :=
  (hk.pop hst hf).next (hc.pop hst hth) hcont

/-- The first stage confirms its cancellation. -/
theorem Sequenced.confirmFirst (hk : Sequenced s) : Sequenced (s.confirm .first) :=
  (hk.refuse (w := .first)).toSequencedBut.endFirst hk.ended

/-- The second stage confirms its cancellation, its object stays, and the parent is resumed. -/
theorem Unclosed.confirmSecond (hc : Core (s.confirm .second)) (hu : Unclosed s)
    (hcan : s.cancelling = false) (hp : s.parent = true)
    (hnone : ∀ f ∈ s.stack, f.closesSecond = false) :
    Sequenced (s.confirm .second).resumeParent := by
  have hne : (s.confirm .second).second.life ≠ .new := by simp [State.confirm, State.finish]
  have hpar : (s.confirm .second).parent = true := hp
  have hv : Unclosed (s.confirm .second).resumeParent := by
    rw [State.resumeParent, if_pos hpar]
    exact { hu with
      resumed := fun _ => hcan
      isOver := fun _ => isOver_resumed (hc.parented hpar).2
      readyAfterCancel := fun h => by
        cases hcan.symm.trans (hc.asked (resumed_eq_readyAfterCancel h))
      ready := resumed_ne_readyImmediately (hc.parented hpar).2 }
  have hnot : ∀ f ∈ (s.confirm .second).resumeParent.stack, f.isThen = false := by
    rw [stack_resumeParent]
    exact hc.not_then hne
  have htop : ∀ f ∈ (s.confirm .second).resumeParent.stack.tail, f.closesSecond = false := by
    rw [stack_resumeParent]
    exact fun f hf => hnone f (List.mem_of_mem_tail hf)
  have hb := hv.sequencedBut hnot htop
  rw [State.resumeParent, if_pos hpar] at hb ⊢
  exact { hb with
    cancelled := fun h => absurd (hcan.symm.trans h) (by simp)
    lost := fun _ h => (by rcases h with h | h <;> cases h)
    ended := fun _ _ => .inl (List.mem_append_right _ List.mem_cons_self) }

theorem Sequenced.confirmsDone {w : Which} {early both : Bool} {below : List (Frame Err)} (hc : Core s)
    (hk : Sequenced s) (hg : Sequential s (answer early true))
    (hst : s.stack = .cancelStage w early (.onStageDone both) :: below)
    (hin : s.isIn w (if early then .idle else .running) = true) :
    Sequenced (({ s with stack := below }.confirm w).resumeParent) := by
  have hcf := hc.confirmed hst hin
  have hholds := hc.holds _ (mem_top hst)
  have hnone := hk.none_below hst
  cases w with
  | first =>
    refine (hk.pop hst rfl).confirmFirst.resumeParent hcf fun hcan => ?_
    have hgone := (hk.pop hst rfl).gone_of_done (hc.pop hst fun _ => rfl)
      (fun hr => (hk.resumed hr hcan).1) hholds hnone
    exact hgone
  | second =>
    have hcan : s.cancelling = false := by
      simpa [State.leavesSecond, hst] using sequential_answer hg
    have hu : Unclosed { s with stack := below } :=
      { hk.unclosed (not_gone_of_built (isIn_iff.1 hin).1) with }
    exact hu.confirmSecond hcf hcan (hc.late _ (mem_top hst) rfl) hnone

theorem Sequenced.beginConfirms {w : Which} {both ret : Bool} {below : List (Frame Err)}
    (hc : Core s) (hk : Sequenced s) (hst : s.stack = .beginEarlyCancel w both :: below)
    (hin : s.isIn w .idle = true)
    (he : Ends ({ s with stack := below }.refuse w true) w both u ret) : Sequenced u := by
  have hin' : ({ s with stack := below }.refuse w true).isIn w .idle = true := by
    cases w <;> exact hin
  refine (hk.pop hst rfl).refuse.ends (hc.pop hst fun _ => rfl).refuse hin' rfl (fun _ _ => ?_) he
  cases w <;> exact hk.none_below hst

/-- `then()` has made the second stage while the scope was being cancelled, and that one confirms. -/
theorem Sequenced.confirmsStarted {early executor ret : Bool} {below : List (Frame Err)} (hc : Core s)
    (hk : Sequenced s) (hst : s.stack = .cancelStage .second early (.markStarted executor) :: below)
    (hin : s.isIn .second (if early then .idle else .running) = true)
    (he : Ends ({ s with stack := below }.refuse .second true) .second false u ret) :
    Sequenced u := by
  have hin' : ({ s with stack := below }.refuse .second true).isIn .second
      (if early then .idle else .running) = true := hin
  exact (hk.pop hst rfl).refuse.ends (hc.pop hst fun _ => rfl).refuse hin' alive_ite (by simp) he

theorem Sequenced.answering {a : Action Err} (hc : Core s) (hk : Sequenced s) (hg : Sequential s a)
    (h : Answering s a t) : Sequenced t := by
  cases h with
  | beginReadies hst hr hcont =>
    have hpop := hc.pop hst fun _ => rfl
    exact ((hk.pop hst rfl).readies hpop (fun _ => hk.none_below hst) hr).next
      (hpop.readies (hc.mayBegin hst) hr) hcont
  | beginConfirms hst hin he hcont =>
    exact (hk.beginConfirms hc hst hin he).next (hc.refusedEnds hst hin he) hcont
  | refusesDone hst hcont => exact hk.nextPop hc hst (fun _ => rfl) rfl hcont
  | refusesDoCancel hst => exact (hk.pop hst rfl).cancelReturned
  | refusesThrew hst => exact hk.pop hst rfl
  | refusesStarted hst hcont => exact hk.nextPop hc hst (fun _ => rfl) rfl hcont
  | confirmsDone hst hin hcont =>
    exact (hk.confirmsDone hc hg hst hin).next (hc.confirmed hst hin).resumeParent hcont
  | confirmsSecond hst =>
    have hl := sequential_answer hg
    simp [State.leavesSecond, hst] at hl
  | confirmsFirst hst => exact (hk.pop hst rfl).confirmFirst.cancelReturned
  | @confirmsThrew early _ hst hin =>
    have hnew : s.second.life = .new :=
      hc.holds (.cancelStage .first early .thenThrew) (mem_top hst)
    refine (hk.pop hst rfl).confirmFirst.resumeParent (hc.confirmed hst hin) fun _ => ?_
    refine ⟨?_, hk.none_below hst⟩
    by_contra hb
    exact hc.second.built (by simpa [State.confirm, State.finish, State.refuse] using hb) hnew
  | confirmsStarted hst hin he => exact hk.confirmsStarted hc hst hin he

/-! ### Stages that end, and are closed -/

theorem Sequenced.suspendThrows {w : Which} {both ret : Bool} {below : List (Frame Err)} {err : Err}
    (hc : Core s) (hk : Sequenced s) (hst : s.stack = .suspend w both :: below)
    (hin : s.isIn w .running = true) (hsec : s.stage.isSecond = false)
    (he : Ends ({ s with stack := below }.switchTo (.exception err)) w both u ret) :
    Sequenced u := by
  obtain ⟨hcs, -, -⟩ := hc.threw err hst hin
  have hnb : ({ s with stack := below } : State Err).second.built = false := hc.built.trans hsec
  rw [switchTo_of_not hnb] at he hcs
  have hks : Sequenced { s with stack := below, stage := .exception err } := { hk.pop hst rfl with }
  exact hks.ends hcs hin rfl (fun _ _ => hk.none_below hst) he

/-- A stage has thrown out of `await_suspend()`, and the second one is destroyed. -/
theorem Sequenced.suspendFails {w : Which} {both : Bool} {below : List (Frame Err)} {err : Err}
    (hc : Core s) (hk : Sequenced s) (hst : s.stack = .suspend w both :: below)
    (hsec : s.stage.isSecond = true) :
    Sequenced (({ s with stack := below }.fail w).leave.enter (.destroyThrown err w both)) := by
  have hb : s.second.built = true := hc.built.trans hsec
  have hne := hc.second.built hb
  have hk' := hk.unclosed (not_gone_of_built hb)
  have hnot : ∀ f ∈ below, f.isThen = false := fun f hf =>
    hc.not_then hne f (hst ▸ List.mem_cons_of_mem _ hf)
  have hnone := hk.none_below hst
  have hsig := hc.signalled_of_second hne
  cases w with
  | first =>
    have hu : Unclosed (({ s with stack := below }.fail .first).leave) := { hk' with }
    exact hu.close hsig hnot rfl rfl hnone fun _ => rfl
  | second =>
    have hu : Unclosed (({ s with stack := below }.fail .second).leave) := { hk' with }
    refine hu.close hsig hnot rfl rfl hnone ?_
    rintro (h | h) <;> cases h

theorem Sequenced.mustResumes {w : Which} {must both ret : Bool} {below : List (Frame Err)}
    (hc : Core s) (hk : Sequenced s) (hst : s.stack = .mustResume w both :: below)
    (h : Settles ({ s with stack := below }.refuse w ((s.get w).mustNotResume || !must)) w both u
      ret) : Sequenced u := by
  obtain ⟨hcr, hend, -⟩ := hc.mustResumed hst ((s.get w).mustNotResume || !must)
  have hnone := hk.none_below hst
  cases w with
  | second =>
    have hu : Unclosed ({ s with stack := below }.refuse .second
        (s.second.mustNotResume || !must)) := { hk.unclosed (not_gone_of_top hst rfl) with }
    exact hu.settles hcr hend hnone h
  | first =>
    cases h with
    | destroys hw => cases hw
    | takes hw => cases hw
    | joins _ hj =>
      exact (hk.pop hst rfl).refuse.joins (w := .first) hcr hend (by simp) (fun _ _ => hnone) hj

/-- The second stage has been destroyed. -/
theorem Sequenced.destroyed {stage : Stage Err} {both ret : Bool} {below : List (Frame Err)}
    (hc : Core s) (hk : Sequenced s) (hst : s.stack = .destroySecond stage both :: below)
    (hj : Joins { s with stack := below, stage := stage } .second both u ret) : Sequenced u := by
  have hend : s.second.life = .ended := hc.holds _ (mem_top hst)
  have hgone : ({ s with stack := below, stage := stage } : State Err).Gone :=
    ⟨(hc.gone _ (mem_top hst) rfl).2, hk.none_below hst⟩
  have hu : Unclosed { s with stack := below, stage := stage } :=
    { hk.unclosed (not_gone_of_top hst rfl) with }
  exact (hu.closed (hc.destroyed hst) hend hgone).joins (w := .second) (hc.destroyed hst) hend
    (fun _ => hgone) (by simp) hj

/-- The second stage has been destroyed after an exception. -/
theorem Sequenced.destroyedThrown {err : Err} {w : Which} {both ret : Bool}
    {below : List (Frame Err)} (hc : Core s) (hk : Sequenced s)
    (hst : s.stack = .destroyThrown err w both :: below)
    (he : Ends { s with stack := below, stage := .exception err } w both u ret) : Sequenced u := by
  have hcf := hc.endsThrown hst
  obtain ⟨hne, hnb⟩ := hc.gone _ (mem_top hst) rfl
  have hnone := hk.none_below hst
  have hu : Unclosed { s with stack := below, stage := .exception err } :=
    { hk.unclosed (not_gone_of_top hst rfl) with }
  cases w with
  | first =>
    have hnot : ∀ f ∈ below, f.isThen = false := fun f hf =>
      hc.not_then hne f (hst ▸ List.mem_cons_of_mem _ hf)
    exact (hu.sequencedBut hnot fun f hf => hnone f (List.mem_of_mem_tail hf)).endsFirst hcf
      (fun _ h => absurd (hnb.symm.trans h) (by simp)) (fun _ => hnone) he
  | second =>
    have hv : Unclosed (({ s with stack := below, stage := .exception err } : State Err).finish
      .second) := { hu with }
    cases he with
    | asks _ _ hb => cases hnb.symm.trans hb
    | settles h => exact hv.settles hcf rfl hnone h

theorem Sequenced.ending {a : Action Err} (hc : Core s) (hk : Sequenced s) (hg : Sequential s a)
    (h : Ending s a t) : Sequenced t := by
  cases h with
  | suspendReturns hst hcont => exact hk.nextPop hc hst (fun _ => rfl) rfl hcont
  | suspendThrows hst hin hsec he hcont =>
    obtain ⟨hcs, hal, hm⟩ := hc.threw _ hst hin
    exact (hk.suspendThrows hc hst hin hsec he).next (hcs.endsAlive hal hm he) hcont
  | suspendFails hst _ hsec => exact hk.suspendFails hc hst hsec
  | resumes hin he =>
    exact hk.ends hc hin rfl (fun hw hcan => closesSecond_eq_false.1 (hg hw hcan)) he
  | mustResumes hst _ h hcont =>
    obtain ⟨hcr, hend, hm⟩ := hc.mustResumed hst _
    exact (hk.mustResumes hc hst h).next (hcr.settles hend hm h) hcont
  | @takesResult _ below hst =>
    have hu : Unclosed { s with stack := below, hasSecondResult := true } :=
      { hk.unclosed (not_gone_of_top hst rfl) with }
    exact hu.destroySecond { hc.pop hst fun _ => rfl with } (hc.holds _ (mem_top hst))
      (hk.none_below hst)
  | @resultThrows _ below _ hst =>
    have hu : Unclosed { s with stack := below } := { hk.unclosed (not_gone_of_top hst rfl) with }
    exact hu.destroySecond (hc.pop hst fun _ => rfl) (hc.holds _ (mem_top hst)) (hk.none_below hst)
  | destroyed hst _ hj hcont =>
    have hboth := hc.both_destroySecond hst
    subst hboth
    exact (hk.destroyed hc hst hj).next (hc.joinsDestroyed hst hj) hcont
  | destroyedThrown hst _ he hcont =>
    exact (hk.destroyedThrown hc hst he).next (hc.endsDestroyed hst he) hcont

/-! ### The calls of the parent -/

theorem readyReturned_eq_readyAfterCancel {c c' : Checker} {val : Bool}
    (h : c.readyReturned val = some c') (hst : c'.state = .readyAfterCancel) :
    c.state = .readyAfterCancel ∨ before c.state = true ∧ val = true := by
  obtain ⟨st, ex⟩ := c
  cases st <;> cases val <;> cases h <;>
    first | exact .inl rfl | exact .inr ⟨rfl, rfl⟩ | cases hst

theorem readyReturned_eq_readyImmediately {c c' : Checker} {val : Bool}
    (h : c.readyReturned val = some c') (hst : c'.state = .readyImmediately) :
    before c.state = true ∧ val = true := by
  obtain ⟨st, ex⟩ := c
  cases st <;> cases val <;> cases h <;> first | exact ⟨rfl, rfl⟩ | cases hst

/-- A parent that has not been suspended has not been resumed. -/
theorem SequencedBut.not_resumed (hk : SequencedBut s) (h : With.isOver s.checker.state = false) :
    .resumed ∉ s.finishes :=
  fun hr => by cases h.symm.trans (hk.isOver hr)

theorem Sequenced.checksReady {c : Checker} (hc : Core s) (hk : Sequenced s) (hst : s.stack = [])
    (hcheck : s.checker.readyReturned (s.first.done && s.second.done) = some c) :
    Sequenced { s with checker := c } := by
  have hgone : before s.checker.state = true → s.second.done = true → s.Gone := fun hb hd =>
    hk.gone_of_done hc (fun hr => absurd hr (hk.not_resumed (by simp [isOver, hb]))) hd
      (by simp [hst])
  refine { hk with
    isOver := fun h => isOver_readyReturned hcheck (hk.isOver h)
    readyAfterCancel := fun h => ?_
    ready := fun h => ?_ }
  · rcases readyReturned_eq_readyAfterCancel hcheck h with h | ⟨h, hd⟩
    · exact hk.readyAfterCancel h
    · simp only [Bool.and_eq_true] at hd
      exact hgone h hd.2
  · obtain ⟨hb, hd⟩ := readyReturned_eq_readyImmediately hcheck h
    simp only [Bool.and_eq_true] at hd
    exact ⟨hgone hb hd.2, hd.2⟩

theorem Sequenced.cancelsEarly (hc : Core s) (hk : Sequenced s) (hst : s.stack = [])
    (hsome : (s.checker.earlyCancelReturned true).isSome = true)
    (h : DoCancels { s with cancelling := true } true t) : Sequenced t := by
  have hbef := before_of_earlyCancelReturned hsome
  have hno : .resumed ∉ s.finishes := hk.not_resumed (by simp [isOver, hbef])
  have hp : s.parent = false := by
    by_contra h
    cases hbef.symm.trans (hc.parented (by simpa using h)).2
  have hu : SequencedBut { s with cancelling := true } := { hk with
    asked := fun h => hk.asked (h.imp id fun h => by cases h.1)
    thenFn := fun f hf => by
      rw [show s.stack = _ from hst] at hf
      cases hf
    resumed := fun h => absurd h hno }
  refine hk.doCancels (c := s.checker) hc hu hno (by simp [hst]) (fun _ hs => ?_)
    (fun _ => by simp [hst]) h
  cases (hc.unparented hp).symm.trans hs

theorem Sequenced.suspends {c : Checker} {both ret : Bool} (hc : Core s) (hk : Sequenced s)
    (hb : s.first.built = true) (hst : s.stack = []) (hcheck : s.checker.aboutToSuspend = some c)
    (hbeg : Begins { s with checker := c, parent := true } .first both u ret) : Sequenced u := by
  have hstate := aboutToSuspend_state hcheck
  have hno : .resumed ∉ s.finishes := hk.not_resumed (by
    rcases hstate with ⟨-, h⟩ | ⟨-, h⟩ <;> rw [h] <;> rfl)
  have hne : ∀ st, c.state = st → st = .running ∨ st = .cancelling := by
    rintro st rfl
    exact hstate.imp And.left And.left
  have hu : Sequenced { s with checker := c, parent := true } := { hk with
    isOver := fun h => absurd h hno
    readyAfterCancel := fun h => (by rcases hne _ h with h | h <;> cases h)
    ready := fun h => (by rcases hne _ h with h | h <;> cases h) }
  exact hu.begins (hc.suspends hb hcheck) (fun _ => by simp [hst]) (fun _ => by simp [hst]) hbeg

theorem Sequenced.preparing {a : Action Err} (hc : Core s) (hk : Sequenced s)
    (h : Preparing s a t) : Sequenced t := by
  cases h with
  | ready _ hst hcheck => exact hk.checksReady hc hst hcheck
  | cancelsEarly _ hst hsome h => exact hk.cancelsEarly hc hst hsome h
  | setsExecutor _ _ _ hcheck =>
    have hst := aboutToSetExecutor_state hcheck
    exact { hk with
      isOver := fun h => (by rw [hst]; exact hk.isOver h)
      readyAfterCancel := fun h => hk.readyAfterCancel (hst ▸ h)
      ready := fun h => hk.ready (hst ▸ h) }
  | suspends hb hst hcheck hbeg hcont =>
    exact (hk.suspends hc hb hst hcheck hbeg).next
      ((hc.suspends hb hcheck).begins (hc.mayBegin_suspends hst) hbeg) hcont

theorem Sequenced.performing {a : Action Err} (hc : Core s) (hk : Sequenced s)
    (hg : Sequential s a) (h : Performing s a t) : Sequenced t := by
  cases h with
  | cancels _ hrun h =>
    have hnot := inThen_eq_false.1 hg.1
    have hno : .resumed ∉ s.finishes := hk.not_resumed (by rw [hrun]; rfl)
    have hu : SequencedBut { s with checker := s.checker.set .cancelling, cancelling := true } :=
      { hk with
        asked := fun h => hk.asked (h.imp id fun h => by cases h.1)
        thenFn := fun f hf h => absurd ((hnot f hf).symm.trans h) (by simp)
        resumed := fun h => absurd h hno
        isOver := fun h => absurd h hno
        readyAfterCancel := fun h => (by cases h)
        ready := fun h => (by cases h) }
    exact hk.doCancels hc hu hno hnot (fun hd _ => (hg.2 hd).1)
      (fun hd => closesSecond_eq_false.1 (hg.2 hd).2) h
  | mustResume =>
    have hne : ∀ st, (s.checker.set (if s.mustResume then .ready else .cancelled)).state = st →
        st = .ready ∨ st = .cancelled := by
      rintro st rfl
      cases s.mustResume
      · exact .inr rfl
      · exact .inl rfl
    exact { hk with
      isOver := fun _ => (by rcases hne _ rfl with h | h <;> rw [h] <;> rfl)
      readyAfterCancel := fun h => (by rcases hne _ h with h | h <;> cases h)
      ready := fun h => (by rcases hne _ h with h | h <;> cases h) }
  | takes _ hcheck =>
    have hst := aboutToResume_state hcheck
    exact { hk with
      isOver := fun _ => (by rw [hst]; rfl)
      readyAfterCancel := fun h => absurd (hst.symm.trans h) (by simp)
      ready := fun h => absurd (hst.symm.trans h) (by simp) }
  | destroys hb =>
    have hgone : s.Gone → State.Gone { s with
        stage := .none
        second := { s.second with built := false }
        first := { s.first with built := false } } := fun h => ⟨rfl, h.2⟩
    exact { hk with
      asked := fun h => (hk.asked h).imp hgone id
      resumed := fun h₁ h₂ => hgone (hk.resumed h₁ h₂)
      readyAfterCancel := fun h => hgone (hk.readyAfterCancel h)
      ready := fun h => (hk.ready h).imp hgone id
      lost := fun _ _ => .inr (.inr ⟨rfl, hc.first.built hb⟩)
      ended := fun _ h => (by cases h) }

theorem Sequenced.change {a : Action Err} (hc : Core s) (hk : Sequenced s) (hg : Sequential s a)
    (h : Change s a t) : Sequenced t := by
  cases h with
  | @answers w =>
    cases w with
    | first => exact { hk with }
    | second => exact { hk with }
  | making h => exact hk.making hc h
  | answering h => exact hk.answering hc hg h
  | ending h => exact hk.ending hc hg h
  | preparing h => exact hk.preparing hc h
  | performing h => exact hk.performing hc hg h

theorem sequenced_of_reach (h : Reach step Sequential (.init : State Err) s) : Sequenced s :=
  h.invariant_of (fun _ => core_of_reach) sequenced_init
    fun _ _ _ hc hk hg hs => hk.change hc hg (change_of_step hc hs)

/-! ### The result -/

/-- When the first stage has been asked to cancel itself, the second one has ended, or never been
made, and has been destroyed to the end; so it has when the parent has been resumed after a
cancellation request, and `await_must_resume()` does not fail its assertion then. -/
theorem second_before_first (h : Reach step Sequential (.init : State Err) s) :
    (s.first.asked = true →
      s.Gone ∧ (s.second.life = .new ∨ s.second.life = .ended)) ∧
    (.resumed ∈ s.finishes → s.cancelling = true → s.Gone) ∧
    (s.checker.state = .readyAfterCancel → step s .awaitMustResume ≠ .error .assertion) := by
  have hc := core_of_reach h
  have hk := sequenced_of_reach h
  refine ⟨fun ha => hk.asked (.inl ha), hk.resumed, fun hst hstep => ?_⟩
  have hno : s.exists .second = false := hc.built.symm.trans (hk.readyAfterCancel hst).1
  unfold With.step at hstep
  simp only [Action.agent] at hstep
  split_ifs at hstep
  · simp only [State.perform, hno, Bool.false_eq_true, if_false, Checker.mustResumeReturned, hst,
      if_true, State.check] at hstep
    cases hstep
  · cases hstep

/-- Both stages run when the parent is cancelled. -/
def bothRun : List (Action ℕ) :=
  [.firstReturns, .awaitReady, .awaitSetExecutor, .awaitSuspend, .suspendReturns, .started,
    .thenReturns, .suspendReturns, .awaitCancel]

/-- The second stage resumes its handle after it has been asked to cancel itself, and is closed. -/
theorem second_before_first_resumes :
    ∃ s, exec step (.init : State ℕ) (bothRun ++ [.cancelReturns false, .resumes .second,
      .mustResumeReturns true, .resultReturns, .secondDestroyed]) = .ok s ∧
      s.first.asked = true ∧ s.Gone ∧ s.second.life = .ended := by
  have hm : Meets step Sequential (.init : State ℕ) (bothRun ++ [.cancelReturns false,
      .resumes .second, .mustResumeReturns true, .resultReturns, .secondDestroyed]) := by decide
  have hrun : ∃ s, exec step (.init : State ℕ) (bothRun ++ [.cancelReturns false,
      .resumes .second, .mustResumeReturns true, .resultReturns, .secondDestroyed]) = .ok s ∧
        s.first.asked = true ∧ s.second.life ≠ .new := ⟨_, rfl, rfl, by decide⟩
  obtain ⟨s, he, hasked, hlife⟩ := hrun
  obtain ⟨hgone, hl⟩ := (second_before_first (reach_of_exec hm he)).1 hasked
  exact ⟨s, he, hasked, hgone, hl.resolve_left hlife⟩

/-- The second stage confirms its cancellation at once: the first one is asked while the object of
the second one exists, and it still exists when the parent is resumed. -/
theorem not_second_before_first :
    ∃ s t : State ℕ, exec step .init (bothRun ++ [.cancelReturns true]) = .ok s ∧
      s.first.asked = true ∧ s.second.built = true ∧
      exec step s [.cancelReturns false, .resumes .first, .mustResumeReturns true] = .ok t ∧
      .resumed ∈ t.finishes ∧ t.cancelling = true ∧ t.second.built = true ∧
      t.checker.state = .readyAfterCancel ∧ step t .awaitMustResume = .error .assertion := by
  refine ⟨_, _, rfl, rfl, rfl, rfl, by decide, rfl, rfl, rfl, rfl⟩

-- The destructor of the second stage cancels the scope, which asks the first stage.
example : ∃ s : State ℕ, exec step .init [.firstReturns, .awaitReady, .awaitSetExecutor,
    .awaitSuspend, .suspendReturns, .started, .thenReturns, .suspendReturns, .resumes .second,
    .resultReturns, .awaitCancel] = .ok s ∧ s.first.asked = true ∧ s.closesSecond = true :=
  ⟨_, rfl, rfl, rfl⟩

end Corral.With
