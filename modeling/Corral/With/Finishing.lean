import Corral.With.Closing

/-!
# When a `with()` scope is over

A scope finishes when it resumes its parent or confirms its cancellation.  It may do so too early if
the first stage ends while `then()` runs, while the second stage exists and has not been begun, or
while the second stage is being closed; and twice if the two stages are closed at the same time.

* `Over`: the scope has finished, once, and nothing will start any more;
* `Orderly`: the runs in which the stages do not end at such a moment;
* `Tidy`: what holds in them; in particular, the scope has finished only if it is over.
-/

namespace Corral.With

open ActionMachine AwaiterStateChecker

variable {Err : Type*} {s t : State Err}

/-! ### The runs -/

/-- The first stage is being asked on behalf of the parent. -/
def State.asksFirst (s : State Err) : Bool :=
  match s.stack with
  | .cancelStage .first _ (.doCancelFirst _ _) :: _ => true
  | _ => false

/-- `await_suspend()` of the first stage is being called. -/
def State.suspendsFirst (s : State Err) : Bool :=
  match s.stack with
  | .suspend .first _ :: _ => true
  | _ => false

/-- Neither is a second stage waiting to be begun, nor is one being closed. -/
def State.clearOfSecond (s : State Err) : Prop :=
  s.isIn .second .idle = false ∧ s.closing .second = false

instance (s : State Err) : Decidable s.clearOfSecond := inferInstanceAs (Decidable (_ ∧ _))

/-- A stage does not resume its handle while the other one is being closed, and the first stage not
while `then()` runs; the first stage does not confirm its cancellation to the parent while `then()`
runs, the second stage waits to be begun, or it is being closed; it does not throw out of
`await_suspend()` while the second stage exists; and the parent is not cancelled after the first
stage has ended while the second one waits to be begun or is being closed. -/
def Orderly (s : State Err) : Action Err → Prop
  | .resumes w => (w = .first → s.inThen = false) ∧ s.closing w.other = false
  | .suspendThrows _ => s.suspendsFirst = true → s.stage.isSecond = false
  | .earlyCancelReturns done => done = true → s.asksFirst = true →
      s.inThen = false ∧ s.clearOfSecond
  | .cancelReturns done => done = true → s.asksFirst = true → s.inThen = false ∧ s.clearOfSecond
  | .awaitEarlyCancel => s.first.done = true → s.clearOfSecond
  | .awaitCancel => s.first.done = true → s.clearOfSecond
  | _ => True

instance (s : State Err) : (a : Action Err) → Decidable (Orderly s a)
  | .resumes _ => inferInstanceAs (Decidable (_ ∧ _))
  | .suspendThrows _ => inferInstanceAs (Decidable (_ → _))
  | .earlyCancelReturns _ => inferInstanceAs (Decidable (_ → _ → _ ∧ _))
  | .cancelReturns _ => inferInstanceAs (Decidable (_ → _ → _ ∧ _))
  | .awaitEarlyCancel => inferInstanceAs (Decidable (_ → _))
  | .awaitCancel => inferInstanceAs (Decidable (_ → _))
  | .firstReturns | .firstThrows | .started | .thenReturns | .thenThrows _ | .answers _ _
  | .suspendReturns | .mustResumeReturns _ | .resultReturns | .resultThrows _ | .secondDestroyed
  | .awaitReady | .awaitSetExecutor | .awaitSuspend | .awaitMustResume | .awaitResume | .destroy =>
    isTrue trivial

/-! ### The scope is over -/

/-- The scope has finished, and nothing is left that could make it finish again. -/
structure Over (s : State Err) : Prop extends Past s where
  checker : isOver s.checker.state = true
  once : s.finishes.length = 1

theorem Over.not_before (ho : Over s) : before s.checker.state = false := by
  have h := ho.checker
  simp only [isOver, Bool.and_eq_true, Bool.not_eq_true'] at h
  exact h.1

theorem over_resumeParent (hc : Core s) (hp : s.parent = true) (hfin : s.finishes = [])
    (hpast : Past s) : Over s.resumeParent := by
  unfold State.resumeParent
  rw [if_pos hp]
  exact ⟨⟨hpast.first, hpast.second, hpast.settled⟩, isOver_resumed (hc.parented hp).2,
    by simp [hfin]⟩

/-! ### The scope has finished only if it is over -/

/-- The parent waits for the answer of `await_cancel()` or `await_early_cancel()`, or is over. -/
def waitsFor (c : Checker) (early : Bool) : Bool :=
  isOver c.state || if early then (c.earlyCancelReturned true).isSome else c.state == .cancelling

/-- The parent waits for the answer of the call that it has made. -/
def Frame.awaited (c : Checker) : Frame Err → Prop
  | .cancelStage _ _ (.doCancelSecond early) => waitsFor c early = true
  | .cancelStage _ _ (.doCancelFirst early _) => waitsFor c early = true
  | _ => True

/-- `doCancel()` goes on with the first stage after the second one. -/
def Frame.isAfter : Frame Err → Bool
  | .cancelStage _ _ (.doCancelFirst _ afterSecond) => afterSecond
  | _ => false

theorem isDoCancel_of_isAfter {f : Frame Err} (h : f.isAfter = true) : f.isDoCancel = true := by
  cases f with
  | cancelStage w early caller => cases caller <;> first | rfl | cases h
  | _ => cases h

theorem awaited_of_not {c : Checker} {f : Frame Err} (h : f.isDoCancel = false) : f.awaited c := by
  cases f with
  | cancelStage w early caller => cases caller <;> trivial
  | _ => trivial

/-- While a stage is being closed, only the parent calls the scope. -/
def Closed : List (Frame Err) → Prop
  | [] => True
  | f :: below => ((∃ w, ∃ g ∈ below, g.closes w = true) → f.isDoCancel = true) ∧ Closed below

/-- No stage is being closed. -/
def State.Clear (s : State Err) : Prop := ∀ w, ∀ f ∈ s.stack, f.closes w = false

/-- The object of the second stage exists until the stage ends or the scope is destroyed. -/
def State.Kept (s : State Err) : Prop :=
  s.second.life.alive = true → s.second.built = true ∨ s.first.built = false ∧ s.first.life ≠ .new

structure Tidy (s : State Err) : Prop where
  thenFn : ∀ f ∈ s.stack, f.isThen = true → s.first.done = false
  closed : Closed s.stack
  asked : ∀ f ∈ s.stack, f.closes .first = true → s.first.cancelling = true
  after : ∀ f ∈ s.stack, f.isAfter = true → s.second.done = true ∨ s.second.life = .threw
  single : s.stack.countP Frame.isDoCancel ≤ 1
  awaited : s.finishes = [] → ∀ f ∈ s.stack, f.awaited s.checker
  finished : s.finishes ≠ [] → Over s
  kept : s.Kept
  notThrew : s.first.life ≠ .threw

theorem tidy_init : Tidy (State.init : State Err) := by
  constructor <;> simp [State.init, StageState.init, Closed, Frame.closes, Frame.isAfter,
    Frame.isDoCancel, Frame.awaited, State.Kept, Life.alive]

theorem clear_of_settled (h : s.Settled) : s.Clear := fun w f hf => not_closes_of_busy (h f hf) w

theorem settled_of_clear (hthen : ∀ f ∈ s.stack, f.isThen = false) (h : s.Clear) : s.Settled :=
  settled_of hthen h

theorem Tidy.pop {f : Frame Err} {below : List (Frame Err)} (hk : Tidy s) (hst : s.stack = f :: below) :
    Tidy { s with stack := below } where
  thenFn := fun g hg => hk.thenFn g (hst ▸ List.mem_cons_of_mem f hg)
  closed := by
    have h := hk.closed
    rw [hst] at h
    exact h.2
  asked := fun g hg => hk.asked g (hst ▸ List.mem_cons_of_mem f hg)
  after := fun g hg => hk.after g (hst ▸ List.mem_cons_of_mem f hg)
  single := by
    have hone := hk.single
    rw [hst, List.countP_cons] at hone
    show below.countP Frame.isDoCancel ≤ 1
    omega
  awaited := fun hfin g hg => hk.awaited hfin g (hst ▸ List.mem_cons_of_mem f hg)
  finished := fun hfin => { hk.finished hfin with settled := Settled.pop (hk.finished hfin).settled hst }
  kept := hk.kept
  notThrew := hk.notThrew

/-- There is no other call on behalf of the parent. -/
theorem Tidy.no_other {f : Frame Err} {below : List (Frame Err)} (hk : Tidy s)
    (hst : s.stack = f :: below) (hf : f.isDoCancel = true) :
    below.countP Frame.isDoCancel = 0 := by
  have hone := hk.single
  rw [hst, List.countP_cons, if_pos hf] at hone
  omega

/-- A call that is not on behalf of the parent is in progress, so no stage was being closed. -/
theorem Tidy.clear_below {f : Frame Err} {below : List (Frame Err)} (hk : Tidy s)
    (hst : s.stack = f :: below) (hf : f.isDoCancel = false) :
    ({ s with stack := below } : State Err).Clear := by
  intro w g hg
  by_contra h
  have hclosed := hk.closed
  rw [hst] at hclosed
  cases hf.symm.trans (hclosed.1 ⟨w, g, hg, by simpa using h⟩)

/-- A call is made. -/
theorem Tidy.enter {f : Frame Err} (hk : Tidy s) (hthen : f.isThen = false)
    (hclosed : f.isDoCancel = true ∨ s.Clear)
    (hasked : f.closes .first = true → s.first.cancelling = true)
    (hafter : f.isAfter = true → s.second.done = true ∨ s.second.life = .threw)
    (hone : f.isDoCancel = true → s.stack.countP Frame.isDoCancel = 0)
    (haw : s.finishes = [] → f.awaited s.checker) (hbusy : f.busy = false ∨ s.finishes = []) :
    Tidy (s.enter f) where
  thenFn := List.forall_mem_cons.2 ⟨fun h => absurd (hthen.symm.trans h) (by simp), hk.thenFn⟩
  closed := by
    refine ⟨fun ⟨w, g, hg, h⟩ => hclosed.resolve_right fun hclear => ?_, hk.closed⟩
    cases (hclear w g hg).symm.trans h
  asked := List.forall_mem_cons.2 ⟨hasked, hk.asked⟩
  after := List.forall_mem_cons.2 ⟨hafter, hk.after⟩
  single := countP_cons_le hk.single hone
  awaited := fun hfin => List.forall_mem_cons.2 ⟨haw hfin, hk.awaited hfin⟩
  finished := fun hfin => { hk.finished hfin with
    settled := List.forall_mem_cons.2 ⟨hbusy.resolve_right hfin, (hk.finished hfin).settled⟩ }
  kept := hk.kept
  notThrew := hk.notThrew

/-- A call is made that is not on behalf of the parent. -/
theorem Tidy.call {f : Frame Err} (hk : Tidy s) (hbusy : f.busy = false) (hf : f.isDoCancel = false)
    (hclear : s.Clear) : Tidy (s.enter f) := by
  refine hk.enter (not_then_of_busy hbusy) (.inr hclear) (fun h => ?_) (fun h => ?_) (fun h => ?_)
    (fun _ => awaited_of_not hf) (.inl hbusy)
  · cases (not_closes_of_busy hbusy .first).symm.trans h
  · cases hf.symm.trans (isDoCancel_of_isAfter h)
  · cases hf.symm.trans h

/-- A stage begins to be closed. -/
theorem Tidy.close {f : Frame Err} (hk : Tidy s) (hthen : f.isThen = false) (hf : f.isDoCancel = false)
    (hasked : f.closes .first = true → s.first.cancelling = true) (hclear : s.Clear)
    (hfin : s.finishes = []) : Tidy (s.enter f) := by
  refine hk.enter hthen (.inr hclear) hasked (fun h => ?_) (fun h => ?_) (fun _ => awaited_of_not hf)
    (.inr hfin)
  · cases hf.symm.trans (isDoCancel_of_isAfter h)
  · cases hf.symm.trans h

/-- A stage is alive, so the scope has not finished. -/
theorem Tidy.unfinished {w : Which} (hk : Tidy s) (hal : (s.get w).life.alive = true) :
    s.finishes = [] := by
  by_contra hfin
  exact (hk.finished hfin).toPast.not_alive hal

/-- `then()` is running or a stage is being closed, so the scope has not finished. -/
theorem Tidy.unfinished_of_busy {f : Frame Err} {below : List (Frame Err)} (hk : Tidy s)
    (hst : s.stack = f :: below) (hf : f.busy = true) : s.finishes = [] := by
  by_contra hfin
  exact (hk.finished hfin).toPast.not_busy hst hf

theorem Tidy.resumeParent (hc : Core s) (hk : Tidy s) (hfin : s.finishes = []) (hpast : Past s) :
    Tidy s.resumeParent := by
  by_cases hp : s.parent = true
  · have ho := over_resumeParent hc hp hfin hpast
    unfold State.resumeParent at ho ⊢
    rw [if_pos hp] at ho ⊢
    exact { hk with
      awaited := fun h => by simp at h
      finished := fun _ => ho }
  · unfold State.resumeParent
    rw [if_neg hp]
    exact hk

theorem Tidy.refuse {w : Which} {no : Bool} (hk : Tidy s) : Tidy (s.refuse w no) := by
  cases w with
  | first => exact { hk with finished := fun h => { hk.finished h with } }
  | second => exact { hk with finished := fun h => { hk.finished h with } }

theorem Tidy.mark {w : Which} {a : Bool} (hk : Tidy s) :
    Tidy (s.set w { s.get w with cancelling := true, asked := a }) := by
  cases w with
  | first => exact { hk with
      asked := fun _ _ _ => rfl
      finished := fun h => { hk.finished h with } }
  | second => exact { hk with finished := fun h => { hk.finished h with } }

theorem clear_mark {w : Which} {a : Bool} (h : s.Clear) :
    (s.set w { s.get w with cancelling := true, asked := a }).Clear := by
  cases w <;> exact h

/-! ### Stages that end -/

/-- A stage has ended. -/
theorem Tidy.finish {w : Which} (hk : Tidy s) (hfin : s.finishes = [])
    (hnot : ∀ f ∈ s.stack, f.isThen = false) : Tidy (s.finish w) := by
  cases w with
  | first => exact { hk with
      thenFn := fun f hf h => absurd ((hnot f hf).symm.trans h) (by simp)
      finished := fun h => absurd hfin h
      kept := fun h => (hk.kept h).imp id fun h' => ⟨h'.1, by simp [State.finish]⟩
      notThrew := by simp [State.finish] }
  | second => exact { hk with
      after := fun _ _ _ => .inl rfl
      finished := fun h => absurd hfin h
      kept := fun h => by cases h }

theorem settled_finish {w : Which} (h : s.Settled) : (s.finish w).Settled := by
  cases w <;> exact h

theorem finishes_finish {w : Which} : (s.finish w).finishes = s.finishes := by
  cases w <;> rfl

/-- When the first stage has ended, and the second one is not there to be waited for, it is not
alive. -/
theorem Tidy.not_alive_of_absent (hc : Core s) (hk : Tidy s) (hb : s.first.built = true)
    (hno : s.stage.isSecond = false) : s.second.life.alive = false := by
  by_contra hal
  rcases hk.kept (by simpa using hal) with h | ⟨h, -⟩
  · cases (hc.built.symm.trans h).symm.trans hno
  · cases hb.symm.trans h

theorem Tidy.joins {u : State Err} {w : Which} {both ret : Bool} (hc : Core s) (hk : Tidy s)
    (hfin : s.finishes = []) (hend : (s.get w).life = .ended) (hset : s.Settled)
    (hb : w = .first → s.first.built = true) (h : Joins s w both u ret) : Tidy u := by
  cases h with
  | last hor =>
    refine hk.resumeParent hc hfin ?_
    cases w with
    | first =>
      refine ⟨hend, ?_, hset⟩
      rcases hor with hd | ⟨-, he⟩
      · exact alive_of_done hc.second hd
      · exact hk.not_alive_of_absent hc (hb rfl) he
    | second =>
      have hl : s.second.life = .ended := hend
      refine ⟨?_, by rw [hl]; rfl, hset⟩
      rcases hor with hd | ⟨-, he⟩
      · exact hc.firstDone hd
      · cases he
  | waits => exact hk
  | asks => exact hk.mark.call rfl rfl (clear_mark (clear_of_settled hset))

/-- The second stage has ended, and is destroyed. -/
theorem Tidy.destroySecond {stage : Stage Err} {both : Bool} (hk : Tidy s) (hfin : s.finishes = [])
    (hend : s.second.life = .ended) (hclear : s.Clear) : Tidy (s.destroySecond stage both) := by
  have hu : Tidy s.leave := { hk with
    finished := fun h => { hk.finished h with }
    kept := fun h => by simp [State.leave, hend, Life.alive] at h }
  exact hu.close rfl rfl (fun h => by cases h) hclear hfin

theorem Tidy.settles {u : State Err} {w : Which} {both ret : Bool} (hc : Core s) (hk : Tidy s)
    (hfin : s.finishes = []) (hend : (s.get w).life = .ended) (hset : s.Settled)
    (hb : w = .first → s.first.built = true) (h : Settles s w both u ret) : Tidy u := by
  cases h with
  | destroys hw =>
    subst hw
    exact hk.destroySecond hfin hend (clear_of_settled hset)
  | takes hw =>
    exact hk.close rfl rfl (fun h => by cases h) (clear_of_settled hset) hfin
  | joins _ h => exact hk.joins hc hfin hend hset hb h

theorem Tidy.ends {u : State Err} {w : Which} {both ret : Bool} (hc : Core (s.finish w))
    (hk : Tidy s) (hfin : s.finishes = []) (hset : s.Settled)
    (hb : w = .first → s.first.built = true) (h : Ends s w both u ret) : Tidy u := by
  have hkf := hk.finish (w := w) hfin fun f hf => not_then_of_busy (hset f hf)
  have hfin' : (s.finish w).finishes = [] := finishes_finish.trans hfin
  cases h with
  | settles h =>
    refine hkf.settles hc hfin' (life_finish w) (settled_finish hset) ?_ h
    rintro rfl
    exact hb rfl
  | asks _ hcan =>
    refine hkf.close rfl rfl (fun h => ?_) (clear_of_settled (settled_finish hset)) hfin'
    obtain rfl : w = .first := by simpa [Frame.closes] using h
    exact hcan

/-- A stage that is alive ends. -/
theorem Tidy.endsAlive {u : State Err} {w : Which} {both ret : Bool} (hc : Core s) (hk : Tidy s)
    (hal : (s.get w).life.alive = true) (hset : s.Settled)
    (hb : w = .first → s.first.built = true) (h : Ends s w both u ret) : Tidy u :=
  hk.ends (hc.finish (not_new_of_alive hal) (not_threw_of_alive hal)) (hk.unfinished hal) hset hb h

/-- The stage is about to be suspended. -/
theorem Tidy.start {w : Which} (hk : Tidy s) (hin : s.isIn w .idle = true) :
    Tidy (s.set w { s.get w with started := true, life := .running }) := by
  obtain ⟨hb, hidle⟩ := isIn_iff.1 hin
  have hfin : s.finishes = [] := hk.unfinished (show (s.get w).life.alive = true by rw [hidle]; rfl)
  cases w with
  | first => exact { hk with
      finished := fun h => absurd hfin h
      kept := fun h => (hk.kept h).imp id fun h' => ⟨h'.1, by simp⟩
      notThrew := by simp }
  | second => exact { hk with
      after := fun f hf h => (hk.after f hf h).imp id fun h => by cases hidle.symm.trans h
      finished := fun h => absurd hfin h
      kept := fun _ => .inl hb }

theorem Tidy.readies {u : State Err} {w : Which} {both ret : Bool} (hc : Core s) (hk : Tidy s)
    (hset : s.Settled) (h : Readies s w both u ret) : Tidy u := by
  cases h with
  | ready hin he =>
    obtain ⟨hb, hidle⟩ := isIn_iff.1 hin
    refine hk.endsAlive hc (by rw [hidle]; rfl) hset ?_ he
    rintro rfl
    exact hb
  | suspends hin =>
    refine (hk.start hin).call rfl rfl ?_
    cases w <;> exact clear_of_settled hset

theorem Tidy.begins {u : State Err} {w : Which} {both ret : Bool} (hc : Core s) (hk : Tidy s)
    (hset : s.Settled) (h : Begins s w both u ret) : Tidy u := by
  cases h with
  | done => exact hk
  | early =>
    have hu : Tidy (s.set w { s.get w with cancelling := true, asked := (s.get w).asked }) :=
      hk.mark
    exact hu.call rfl rfl (clear_mark (clear_of_settled hset))
  | readies _ _ hr => exact hk.readies hc hset hr

/-- The second stage is begun if it is to be. -/
theorem Tidy.next {u : State Err} {both ret : Bool} (hc : Core u) (hk : Tidy u)
    (hset : both = true → ret = true → u.Settled) (hcont : Continues (State.next both) u ret t) :
    Tidy t := by
  rcases next_cases hcont with ⟨rfl, -⟩ | ⟨hret, hboth, ret', hb⟩
  · exact hk
  · exact hk.begins hc (hset hboth hret) hb

/-- The function has left the calls in progress alone if it has returned. -/
theorem settled_of_stack {u : State Err} (hset : s.Settled) (h : u.stack = s.stack) : u.Settled := by
  intro f hf
  rw [h] at hf
  exact hset f hf

/-! ### The parent -/

theorem isOver_of_waitsFor {c : Checker} {early : Bool} (h : waitsFor c early = true) :
    isOver ((if early then c.earlyCancelReturned true else c.cancelReturned true).getD c).state =
      true := by
  obtain ⟨st, ex⟩ := c
  cases early <;> cases st <;> first | rfl | cases h

/-- The parent is told that its cancellation is not complete. -/
theorem Tidy.refused {early : Bool} (hk : Tidy s) (hno : s.stack.countP Frame.isDoCancel = 0) :
    Tidy (s.cancelReturned early false) :=
  { hk with
    awaited := fun _ f hf => awaited_of_not (by simpa using List.countP_eq_zero.1 hno f hf)
    finished := fun h =>
      { hk.finished h with checker := isOver_cancelReturned (hk.finished h).checker } }

/-- The parent is told that the scope has been cancelled. -/
theorem Tidy.confirmed {early : Bool} (hk : Tidy s) (hfin : s.finishes = []) (hp : Past s)
    (haw : waitsFor s.checker early = true) : Tidy (s.cancelReturned early true) :=
  { hk with
    awaited := fun h => (by simp [State.cancelReturned] at h)
    finished := fun _ => ⟨⟨hp.first, hp.second, hp.settled⟩, isOver_of_waitsFor haw,
      by simp [State.cancelReturned, hfin]⟩ }

/-- The second stage is neither running, nor waiting to be begun, nor being destroyed. -/
theorem Tidy.not_alive (hc : Core s) (hk : Tidy s) (hb : s.first.built = true)
    (hrun : s.second.isRunning = false) (hidle : s.isIn .second .idle = false) :
    s.second.life.alive = false := by
  cases hl : s.second.life with
  | idle =>
    rcases hk.kept (by rw [hl]; rfl) with h | ⟨h, -⟩
    · cases hidle.symm.trans (isIn_iff.2 ⟨h, hl⟩)
    · cases hb.symm.trans h
  | running => exact absurd hl (hc.not_running hrun)
  | new | threw | ended => rfl

/-- The first stage has not been asked, so it is not being closed. -/
theorem Tidy.settled_of_not_cancelling (hk : Tidy s) (hno : s.first.cancelling = false)
    (hnot : ∀ f ∈ s.stack, f.isThen = false) (hsec : s.closing .second = false) : s.Settled := by
  refine settled_of hnot fun w f hf => ?_
  cases w with
  | first =>
    by_contra h
    cases hno.symm.trans (hk.asked f hf (by simpa using h))
  | second => exact closing_eq_false.1 hsec f hf

theorem Tidy.cancelsFirst {early afterSecond : Bool} (hc : Core s) (hk : Tidy s)
    (hfin : s.finishes = []) (hno : s.stack.countP Frame.isDoCancel = 0)
    (haw : waitsFor s.checker early = true)
    (hafter : afterSecond = true → s.second.done = true ∨ s.second.life = .threw)
    (hclear : s.first.done = true → s.closing .second = false ∧
      ((afterSecond || !s.second.isRunning) = true → s.second.life.alive = false))
    (h : CancelsFirst s early afterSecond t) : Tidy t := by
  cases h with
  | @returns done h₁ =>
    cases hret : done && (afterSecond || !s.second.isRunning) with
    | false => exact hk.refused hno
    | true =>
      obtain ⟨hdone, hor⟩ := Bool.and_eq_true_iff.1 hret
      obtain ⟨hd, hcan⟩ := h₁ hdone
      obtain ⟨hclose, hal⟩ := hclear hd
      have hnot : ∀ f ∈ s.stack, f.isThen = false := by
        intro f hf
        by_contra hthen
        cases hd.symm.trans (hk.thenFn f hf (by simpa using hthen))
      exact hk.confirmed hfin
        ⟨hc.firstDone hd, hal hor, hk.settled_of_not_cancelling hcan hnot hclose⟩ haw
  | asks =>
    have hu : Tidy { s with first := { s.first with
      cancelling := true, asked := s.first.started } } := Tidy.mark hk (w := .first)
    exact hu.enter rfl (.inl rfl) (fun h => by cases h) hafter (fun _ => hno) (fun _ => haw) (.inl rfl)

theorem Tidy.doCancels {early : Bool} (hc : Core s) (hk : Tidy s) (hfin : s.finishes = [])
    (hno : s.stack.countP Frame.isDoCancel = 0) (hb : s.first.built = true)
    (haw : waitsFor s.checker early = true)
    (hclear : s.first.done = true → s.clearOfSecond) (h : DoCancels s early t) : Tidy t := by
  cases h with
  | again => exact hk.refused hno
  | gone hrun _ hgone h =>
    -- A second stage that is alive has its object, so this one has thrown.
    have hthrew : s.second.life = .threw := by
      refine (hc.alive_of_running hrun).resolve_left fun hal => ?_
      cases hal.symm.trans (hk.not_alive_of_absent hc hb hgone)
    refine hk.cancelsFirst hc hfin hno haw (fun _ => .inr hthrew) (fun hd => ?_) h
    cases (hclear hd).2.symm.trans (hc.closing_of_threw (w := .second) hthrew)
  | asks =>
    have hu : Tidy { s with second := { s.second with
      cancelling := true, asked := s.second.started } } := Tidy.mark hk (w := .second)
    exact hu.enter rfl (.inl rfl) (fun h => by cases h) (fun h => by cases h) (fun _ => hno)
      (fun _ => haw) (.inl rfl)
  | first hrun h =>
    refine hk.cancelsFirst hc hfin hno haw (by simp) (fun hd => ⟨(hclear hd).2, fun _ => ?_⟩) h
    exact hk.not_alive hc hb hrun (hclear hd).1

/-! ### Making the stages -/

theorem Tidy.made {executor : Bool} {below : List (Frame Err)} (hc : Core s) (hk : Tidy s)
    (hst : s.stack = .thenFn executor :: below) : Tidy ({ s with stack := below }.made) := by
  obtain ⟨hnew, hdone⟩ := hc.thenFn _ (mem_top hst) rfl
  have hpop := hk.pop hst
  refine { hpop with
    after := fun f hf h => ?_
    finished := fun h => absurd (hk.unfinished_of_busy hst rfl) h
    kept := fun _ => .inl rfl }
  rcases hpop.after f hf h with h | h
  · cases hdone.symm.trans h
  · cases hnew.symm.trans h

theorem Tidy.thenThrew {executor : Bool} {below : List (Frame Err)} (hk : Tidy s) (err : Err)
    (hst : s.stack = .thenFn executor :: below) :
    Tidy { s with stack := below, stage := .exception err, thrown := some err } :=
  { hk.pop hst with finished := fun h => absurd (hk.unfinished_of_busy hst rfl) h }

/-- A call that is not made while `then()` runs returns. -/
theorem Tidy.settled_below {f : Frame Err} {below : List (Frame Err)} (hc : Core s) (hk : Tidy s)
    (hst : s.stack = f :: below) (hf : f.isDoCancel = false) (hover : f.overThen = false) :
    ({ s with stack := below } : State Err).Settled :=
  settled_of_clear (hc.not_then_below hst hover) (hk.clear_below hst hf)

/-- While the first stage may signal readiness, the scope has not finished. -/
theorem Tidy.unfinished_of_maySignal (hc : Core s) (hk : Tidy s) (hm : s.maySignal = true) :
    s.finishes = [] := by
  by_contra h
  cases ((hk.finished h).toPast.not_maySignal hc).symm.trans hm

/-- When `then()` returns, no stage is being closed, and no other activity opens the second one. -/
theorem Tidy.settled_thenFn {executor : Bool} {below : List (Frame Err)} (hc : Core s) (hk : Tidy s)
    (hst : s.stack = .thenFn executor :: below) :
    ({ s with stack := below } : State Err).Settled :=
  settled_of_clear (not_then_of_countP (hc.opened hst rfl).2) (hk.clear_below hst rfl)

theorem Tidy.constructs {below : List (Frame Err)} (hc : Core s) (hk : Tidy s)
    (hst : s.stack = .construct :: below) :
    Tidy { s with stack := below, first := { s.first with life := .idle, built := true } } := by
  have hnew := hc.construct _ (mem_top hst) rfl
  refine { hk.pop hst with
    finished := fun h => ?_
    kept := fun h => ?_
    notThrew := by simp }
  · cases (hk.finished h).first.symm.trans hnew
  · rcases hk.kept h with h | ⟨-, h⟩
    · exact .inl h
    · exact absurd hnew h

theorem Tidy.signals (hc : Core s) (hk : Tidy s) (hm : s.maySignal = true)
    (hnd : s.first.done = false) :
    Tidy ({ s with signalled := true, stage := .none }.enter (.thenFn s.stage.isFirst)) := by
  have hfin := hk.unfinished_of_maySignal hc hm
  exact { hk with
    thenFn := List.forall_mem_cons.2 ⟨fun _ => hnd, hk.thenFn⟩
    closed := (by
      refine ⟨fun ⟨w, g, hg, h⟩ => ?_, hk.closed⟩
      cases (hc.not_closes_of_maySignal hm g hg).symm.trans h)
    asked := List.forall_mem_cons.2 ⟨fun h => (by cases h), hk.asked⟩
    after := List.forall_mem_cons.2 ⟨fun h => (by cases h), hk.after⟩
    single := countP_cons_le hk.single fun h => (by cases h)
    awaited := fun h => List.forall_mem_cons.2 ⟨trivial, hk.awaited h⟩
    finished := fun h => absurd hfin h }

theorem Tidy.making {a : Action Err} (hc : Core s) (hk : Tidy s) (h : Making s a t) : Tidy t := by
  cases h with
  | constructs hst => exact hk.constructs hc hst
  | ignored hm => exact { hk with
      after := fun _ _ _ => .inl rfl
      finished := fun h => absurd (hk.unfinished_of_maySignal hc hm) h }
  | signals hm hnd => exact hk.signals hc hm hnd
  | makes hst => exact hk.made hc hst
  | makesBegins hst _ hb =>
    have hset := hk.settled_thenFn hc hst
    exact (hk.made hc hst).begins (hc.made hst) hset hb
  | makesCancels hst =>
    have hu := (hk.made hc hst).mark (w := .second) (a := s.second.started)
    exact hu.call rfl rfl (clear_of_settled (hk.settled_thenFn hc hst))
  | throwsWaits hst => exact hk.thenThrew _ hst
  | throwsLast hst _ hd => cases (hk.thenFn _ (mem_top hst) rfl).symm.trans hd
  | @throwsAsks _ _ err hst =>
    have hu := (hk.thenThrew err hst).mark (w := .first) (a := s.first.started)
    exact hu.call rfl rfl (clear_of_settled (hk.settled_thenFn hc hst))

/-! ### Answers -/

theorem orderly_answer {early : Bool} (h : Orderly s (answer early true)) (hf : s.asksFirst = true) :
    s.inThen = false ∧ s.clearOfSecond := by
  cases early <;> exact h rfl hf

/-- A call returns, and the second stage is begun if it is to be. -/
theorem Tidy.nextPop {f : Frame Err} {below : List (Frame Err)} {both : Bool} (hc : Core s)
    (hk : Tidy s) (hst : s.stack = f :: below) (hth : ∀ w, f.isThrown w = false)
    (hf : f.isDoCancel = false) (hover : f.overThen = false)
    (hcont : Continues (State.next both) { s with stack := below } true t) : Tidy t :=
  (hk.pop hst).next (hc.pop hst hth) (fun _ _ => hk.settled_below hc hst hf hover) hcont

/-- The stage that has been asked has confirmed its cancellation. -/
theorem Tidy.confirm {w : Which} (hk : Tidy s) (hal : (s.get w).life.alive = true)
    (hnot : ∀ f ∈ s.stack, f.isThen = false) : Tidy (s.confirm w) := by
  refine hk.refuse.finish ?_ ?_
  · have hfin := hk.unfinished hal
    cases w <;> exact hfin
  · cases w <;> exact hnot

theorem Tidy.beginConfirms {w : Which} {both ret : Bool} {below : List (Frame Err)} {u : State Err}
    (hc : Core s) (hk : Tidy s) (hst : s.stack = .beginEarlyCancel w both :: below)
    (hin : s.isIn w .idle = true)
    (he : Ends ({ s with stack := below }.refuse w true) w both u ret) : Tidy u := by
  obtain ⟨hb, hidle⟩ := isIn_iff.1 hin
  have hset := hk.settled_below hc hst rfl rfl
  refine (hk.pop hst).refuse.endsAlive (hc.pop hst fun _ => rfl).refuse ?_ ?_ ?_ he
  · rw [life_refuse]
    have hal : (s.get w).life.alive = true := by rw [hidle]; rfl
    cases w <;> exact hal
  · cases w <;> exact hset
  · rintro rfl
    exact hb

theorem Tidy.confirmsDone {w : Which} {early both : Bool} {below : List (Frame Err)} (hc : Core s)
    (hk : Tidy s) (hst : s.stack = .cancelStage w early (.onStageDone both) :: below)
    (hin : s.isIn w (if early then .idle else .running) = true) :
    Tidy ({ s with stack := below }.confirm w).resumeParent := by
  have hal := alive_of_isIn hin alive_ite
  have hset := hk.settled_below hc hst rfl (by cases w <;> rfl)
  have hhold := hc.holds _ (mem_top hst)
  have hu : Tidy ({ s with stack := below }.confirm w) := by
    refine (hk.pop hst).confirm ?_ fun f hf => not_then_of_busy (hset f hf)
    cases w <;> exact hal
  refine hu.resumeParent (hc.confirmed hst hin) ?_ ?_
  · have hfin := hk.unfinished hal
    cases w <;> exact hfin
  · cases w with
    | first => exact ⟨rfl, alive_of_done hc.second hhold, hset⟩
    | second => exact ⟨hc.firstDone hhold, rfl, hset⟩

theorem Tidy.confirmsFirst {early e after : Bool} {below : List (Frame Err)} (hc : Core s)
    (hk : Tidy s) (hst : s.stack = .cancelStage .first early (.doCancelFirst e after) :: below)
    (hin : s.isIn .first (if early then .idle else .running) = true)
    (hg : s.inThen = false ∧ s.clearOfSecond) :
    Tidy (({ s with stack := below }.confirm .first).cancelReturned e
      (after || !s.second.isRunning)) := by
  have hal : s.first.life.alive = true := alive_of_isIn hin alive_ite
  have hsub : ∀ g ∈ below, g ∈ s.stack := fun g hg => hst ▸ List.mem_cons_of_mem _ hg
  have hnot : ∀ f ∈ below, f.isThen = false := fun f hf => inThen_eq_false.1 hg.1 f (hsub f hf)
  have hset : ({ s with stack := below } : State Err).Settled := by
    refine settled_of hnot fun w f hf => ?_
    cases w with
    | first => exact hc.not_closes_of_alive (w := .first) hal f (hsub f hf)
    | second => exact closing_eq_false.1 hg.2.2 f (hsub f hf)
  have hu : Tidy ({ s with stack := below }.confirm .first) := (hk.pop hst).confirm hal hnot
  have hfin : s.finishes = [] := hk.unfinished (w := .first) hal
  cases hret : after || !s.second.isRunning with
  | false => exact hu.refused (hk.no_other hst rfl)
  | true =>
    refine hu.confirmed hfin ⟨rfl, ?_, hset⟩ (hk.awaited hfin _ (mem_top hst))
    rcases Bool.or_eq_true_iff.1 hret with ha | hrun
    · rcases hk.after _ (mem_top hst) ha with hd | hthrew
      · exact alive_of_done hc.second hd
      · cases hg.2.2.symm.trans (hc.closing_of_threw (w := .second) hthrew)
    · have hno := hk.not_alive hc (isIn_iff.1 hin).1 (by simpa using hrun) hg.2.1
      exact hno

/-- The second stage has confirmed its cancellation to the parent. -/
theorem Tidy.confirmsSecond {early e : Bool} {below : List (Frame Err)} (hc : Core s) (hk : Tidy s)
    (hst : s.stack = .cancelStage .second early (.doCancelSecond e) :: below)
    (hin : s.isIn .second (if early then .idle else .running) = true)
    (h : CancelsFirst ({ s with stack := below }.confirm .second) e true t) : Tidy t := by
  have hal : s.second.life.alive = true := alive_of_isIn hin alive_ite
  have hfin : s.finishes = [] := hk.unfinished (w := .second) hal
  have hu : Tidy ({ s with stack := below }.confirm .second) :=
    (hk.pop hst).confirm hal (hc.not_then_below hst rfl)
  refine hu.cancelsFirst (hc.confirmed hst hin) hfin (hk.no_other hst rfl)
    (hk.awaited hfin _ (mem_top hst)) (fun _ => .inl rfl) (fun _ => ⟨?_, fun _ => rfl⟩) h
  refine closing_eq_false.2 fun f hf => ?_
  exact hc.not_closes_of_alive (w := .second) hal f (hst ▸ List.mem_cons_of_mem _ hf)

theorem Tidy.confirmsThrew {early : Bool} {below : List (Frame Err)} (hc : Core s) (hk : Tidy s)
    (hst : s.stack = .cancelStage .first early .thenThrew :: below)
    (hin : s.isIn .first (if early then .idle else .running) = true) :
    Tidy (({ s with stack := below }.confirm .first).resumeParent) := by
  have hal : s.first.life.alive = true := alive_of_isIn hin alive_ite
  have hset := hk.settled_below hc hst rfl rfl
  have hnew : s.second.life = .new := hc.holds _ (mem_top hst)
  have hu : Tidy ({ s with stack := below }.confirm .first) :=
    (hk.pop hst).confirm hal fun f hf => not_then_of_busy (hset f hf)
  have hfin := hk.unfinished (w := .first) hal
  refine hu.resumeParent (hc.confirmed hst hin) hfin ⟨rfl, ?_, hset⟩
  show s.second.life.alive = false
  rw [hnew]
  rfl

theorem Tidy.confirmsStarted {early executor ret : Bool} {below : List (Frame Err)} (hc : Core s)
    (hk : Tidy s) (hst : s.stack = .cancelStage .second early (.markStarted executor) :: below)
    (hin : s.isIn .second (if early then .idle else .running) = true)
    (he : Ends ({ s with stack := below }.refuse .second true) .second false t ret) : Tidy t := by
  have hal : s.second.life.alive = true := alive_of_isIn hin alive_ite
  have hset := hk.settled_below hc hst rfl rfl
  have hcr : Core ({ s with stack := below }.refuse .second true) :=
    (hc.pop hst fun _ => rfl).refuse
  have hkr : Tidy ({ s with stack := below }.refuse .second true) := (hk.pop hst).refuse
  exact hkr.endsAlive (w := .second) hcr hal hset (by simp) he

theorem settled_resumeParent (h : s.Settled) : s.resumeParent.Settled :=
  settled_of_stack h (stack_resumeParent s)

theorem Tidy.answering {a : Action Err} (hc : Core s) (hk : Tidy s) (hg : Orderly s a)
    (h : Answering s a t) : Tidy t := by
  cases h with
  | beginReadies hst hr hcont =>
    have hset := hk.settled_below hc hst rfl rfl
    have hcp := hc.pop hst fun _ => rfl
    refine ((hk.pop hst).readies hcp hset hr).next (hcp.readies (hc.mayBegin hst) hr)
      (fun _ hret => ?_) hcont
    subst hret
    exact settled_of_stack hset (stack_readies hr).1
  | @beginConfirms w _ _ below _ _ hst hin he hcont =>
    have hset := hk.settled_below hc hst rfl rfl
    refine (hk.beginConfirms hc hst hin he).next (hc.refusedEnds hst hin he) (fun _ hret => ?_) hcont
    subst hret
    exact settled_of_stack hset ((stack_ends he).1.trans (by cases w <;> rfl))
  | @refusesDone w _ _ _ _ hst hcont =>
    exact hk.nextPop hc hst (fun _ => rfl) rfl (by cases w <;> rfl) hcont
  | refusesDoCancel hst e hor =>
    refine (hk.pop hst).refused (hk.no_other hst ?_)
    rcases hor with rfl | ⟨_, rfl⟩ <;> rfl
  | refusesThrew hst => exact hk.pop hst
  | @refusesStarted w _ _ _ _ hst hcont =>
    exact hk.nextPop hc hst (fun _ => rfl) rfl (by cases w <;> rfl) hcont
  | @confirmsDone w _ _ below _ hst hin hcont =>
    have hset := hk.settled_below hc hst rfl (by cases w <;> rfl)
    have hsetu : ({ s with stack := below } : State Err).Settled →
        (({ s with stack := below } : State Err).confirm w).Settled := by cases w <;> exact id
    exact (hk.confirmsDone hc hst hin).next (hc.confirmed hst hin).resumeParent
      (fun _ _ => settled_resumeParent (hsetu hset)) hcont
  | confirmsSecond hst hin h => exact hk.confirmsSecond hc hst hin h
  | confirmsFirst hst hin =>
    exact hk.confirmsFirst hc hst hin (orderly_answer hg (by simp [State.asksFirst, hst]))
  | confirmsThrew hst hin => exact hk.confirmsThrew hc hst hin
  | confirmsStarted hst hin he => exact hk.confirmsStarted hc hst hin he

/-! ### Stages that end, and are closed -/

theorem switchTo_of_absent {stage : Stage Err} (hc : Core s) (h : s.stage.isSecond = false) :
    s.switchTo stage = { s with stage := stage } :=
  switchTo_of_not (hc.built.trans h)

theorem Tidy.suspendThrows {w : Which} {both ret : Bool} {below : List (Frame Err)} {err : Err}
    {u : State Err} (hc : Core s) (hk : Tidy s) (hst : s.stack = .suspend w both :: below)
    (hin : s.isIn w .running = true)
    (he : Ends ({ s with stack := below }.switchTo (.exception err)) w both u ret)
    (hsec : s.stage.isSecond = false) : Tidy u := by
  obtain ⟨hcs, hal, -⟩ := hc.threw err hst hin
  rw [switchTo_of_absent (hc.pop hst fun _ => rfl) hsec] at he hcs hal
  have hpop := hk.pop hst
  have hks : Tidy { s with stack := below, stage := .exception err } :=
    { hpop with finished := fun h => { hpop.finished h with } }
  refine hks.endsAlive hcs hal (hk.settled_below hc hst rfl rfl) ?_ he
  rintro rfl
  exact (isIn_iff.1 hin).1

/-- The second stage has thrown out of `await_suspend()`, and is destroyed. -/
theorem Tidy.suspendFails {both : Bool} {below : List (Frame Err)} {err : Err} (hk : Tidy s)
    (hst : s.stack = .suspend .second both :: below) (hin : s.isIn .second .running = true) :
    Tidy (({ s with stack := below }.fail .second).leave.enter
      (.destroyThrown err .second both)) := by
  have hfin : s.finishes = [] := hk.unfinished (alive_of_isIn hin rfl)
  have hu : Tidy (({ s with stack := below } : State Err).fail .second).leave := { hk.pop hst with
    after := fun _ _ _ => .inr rfl
    finished := fun h => absurd hfin h
    kept := fun h => by cases h }
  exact hu.close rfl rfl (fun h => by cases h) (hk.clear_below hst rfl) hfin

theorem Tidy.resumes {w : Which} {ret : Bool} {u : State Err} (hc : Core s) (hk : Tidy s)
    (hin : s.isIn w .running = true) (hg : Orderly s (.resumes w)) (he : Ends s w false u ret) :
    Tidy u := by
  have hal := alive_of_isIn hin rfl
  refine hk.endsAlive hc hal (settled_of ?_ fun w' f hf => ?_) ?_ he
  · cases w with
    | first => exact inThen_eq_false.1 (hg.1 rfl)
    | second => exact hc.not_then (not_new_of_alive hal)
  · by_cases hw : w' = w
    · subst hw
      exact hc.not_closes_of_alive hal f hf
    · have hw' : w' = w.other := by cases w <;> cases w' <;> simp_all [Which.other]
      subst hw'
      exact closing_eq_false.1 hg.2 f hf
  · rintro rfl
    exact (isIn_iff.1 hin).1

/-- What is known when `await_must_resume()` returns. -/
theorem Tidy.settled_mustResume {w : Which} {both : Bool} {below : List (Frame Err)} (hc : Core s)
    (hk : Tidy s) (hst : s.stack = .mustResume w both :: below) :
    ({ s with stack := below } : State Err).Settled := by
  refine settled_of_clear (fun f hf => ?_) (hk.clear_below hst rfl)
  have hend := hc.holds _ (mem_top hst)
  have hmem : f ∈ s.stack := hst ▸ List.mem_cons_of_mem _ hf
  cases w with
  | first =>
    by_contra h
    have hno := hk.thenFn f hmem (by simpa using h)
    cases hno.symm.trans (hc.first.ended hend)
  | second =>
    have hl : s.second.life = .ended := hend
    exact hc.not_then (by simp [hl]) f hmem

theorem Tidy.mustResumes {w : Which} {must both ret : Bool} {below : List (Frame Err)}
    {u v : State Err} (hc : Core s) (hk : Tidy s) (hst : s.stack = .mustResume w both :: below)
    (hb : (s.get w).built = true)
    (hs : Settles ({ s with stack := below }.refuse w ((s.get w).mustNotResume || !must)) w both u ret)
    (hcont : Continues (State.next both) u ret v) : Tidy v := by
  have hset := hk.settled_mustResume hc hst
  have hfin : s.finishes = [] := hk.unfinished_of_busy hst (busy_of_closes (w := w) (by
    simp [Frame.closes]))
  obtain ⟨hcr, hend, hm⟩ := hc.mustResumed hst ((s.get w).mustNotResume || !must)
  have hset' : (({ s with stack := below } : State Err).refuse w
      ((s.get w).mustNotResume || !must)).Settled := by cases w <;> exact hset
  refine ((hk.pop hst).refuse.settles hcr ?_ hend hset' ?_ hs).next (hcr.settles hend hm hs)
    (fun _ hret => ?_) hcont
  · cases w <;> exact hfin
  · rintro rfl
    exact hb
  · subst hret
    exact settled_of_stack hset' (stack_settles hs).1

/-- The second stage has been destroyed. -/
theorem Tidy.destroyed {stage : Stage Err} {both ret : Bool} {below : List (Frame Err)}
    {u v : State Err} (hc : Core s) (hk : Tidy s) (hst : s.stack = .destroySecond stage both :: below)
    (hj : Joins { s with stack := below, stage := stage } .second both u ret)
    (hcont : Continues (State.next both) u ret v) : Tidy v := by
  have hset := hk.settled_below hc hst rfl rfl
  have hend : s.second.life = .ended := hc.holds _ (mem_top hst)
  have hpop := hk.pop hst
  have hku : Tidy { s with stack := below, stage := stage } :=
    { hpop with finished := fun h => { hpop.finished h with } }
  obtain rfl := hc.both_destroySecond hst
  have hu := hku.joins (w := .second) (hc.destroyed hst) (hk.unfinished_of_busy hst rfl) hend hset
    (by simp) hj
  exact hu.next (hc.joinsDestroyed hst hj) (by simp) hcont

theorem Tidy.destroyedThrown {err : Err} {w : Which} {both ret : Bool} {below : List (Frame Err)}
    {u v : State Err} (hc : Core s) (hk : Tidy s) (hst : s.stack = .destroyThrown err w both :: below)
    (he : Ends { s with stack := below, stage := .exception err } w both u ret)
    (hcont : Continues (State.next both) u ret v) : Tidy v := by
  have hset := hk.settled_below hc hst rfl rfl
  have hpop := hk.pop hst
  have hku : Tidy { s with stack := below, stage := .exception err } :=
    { hpop with finished := fun h => { hpop.finished h with } }
  cases w with
  | first => exact absurd (hc.life_of_destroyThrown hst).1 hk.notThrew
  | second =>
    have hu := hku.ends (hc.endsThrown hst) (hk.unfinished_of_busy hst rfl) hset (by simp) he
    refine hu.next (hc.endsDestroyed hst he) (fun hboth => ?_) hcont
    cases (hc.mayEnd_destroyThrown hst).which hboth

theorem Tidy.ending {a : Action Err} (hc : Core s) (hk : Tidy s) (hg : Orderly s a)
    (h : Ending s a t) : Tidy t := by
  cases h with
  | suspendReturns hst hcont => exact hk.nextPop hc hst (fun _ => rfl) rfl rfl hcont
  | suspendThrows hst hin hsec he hcont =>
    have hset := hk.settled_below hc hst rfl rfl
    obtain ⟨hcs, hal, hm⟩ := hc.threw _ hst hin
    refine (hk.suspendThrows hc hst hin he hsec).next (hcs.endsAlive hal hm he) (fun _ hret => ?_)
      hcont
    subst hret
    exact settled_of_stack hset (stack_ends he).1
  | @suspendFails w _ _ _ hst hin hsec =>
    cases w with
    | first =>
      have hno := hg (by simp [State.suspendsFirst, hst])
      cases hno.symm.trans hsec
    | second => exact hk.suspendFails hst hin
  | resumes hin he => exact hk.resumes hc hin hg he
  | mustResumes hst hb hs hcont => exact hk.mustResumes hc hst hb hs hcont
  | takesResult hst =>
    have hpop := hk.pop hst
    have hfin := hk.unfinished_of_busy hst rfl
    exact Tidy.destroySecond { hpop with finished := fun h => absurd hfin h } hfin
      (hc.holds _ (mem_top hst)) (hk.clear_below hst rfl)
  | resultThrows hst =>
    exact (hk.pop hst).destroySecond (hk.unfinished_of_busy hst rfl) (hc.holds _ (mem_top hst))
      (hk.clear_below hst rfl)
  | destroyed hst _ hj hcont => exact hk.destroyed hc hst hj hcont
  | destroyedThrown hst _ he hcont => exact hk.destroyedThrown hc hst he hcont

/-! ### The parent -/

/-- The checker of the parent changes while no call is made on its behalf, or it is over. -/
theorem Tidy.check {c : Checker} (hk : Tidy s) (hover : isOver s.checker.state = true →
    isOver c.state = true) (h : s.stack = [] ∨ isOver c.state = true) :
    Tidy { s with checker := c } := by
  refine { hk with
    awaited := fun _ f hf => ?_
    finished := fun h' => { hk.finished h' with checker := hover (hk.finished h').checker } }
  rcases h with h | h
  · rw [show s.stack = _ from h] at hf
    cases hf
  · cases f with
    | cancelStage w early caller =>
      cases caller <;> first | trivial | (simp only [Frame.awaited, waitsFor, h, Bool.true_or])
    | _ => trivial

theorem Tidy.no_doCancel (hk : Tidy s) (hfin : s.finishes = [])
    (hrun : s.checker.state = .running) : s.stack.countP Frame.isDoCancel = 0 := by
  rw [List.countP_eq_zero]
  intro f hf hd
  have haw := hk.awaited hfin f hf
  obtain ⟨⟨st, ex⟩, hch⟩ : ∃ c, s.checker = c := ⟨_, rfl⟩
  rw [hch] at hrun haw
  obtain rfl : st = .running := hrun
  cases f with
  | cancelStage w early caller =>
    cases caller with
    | doCancelSecond e => cases e <;> cases haw
    | doCancelFirst e a => cases e <;> cases haw
    | _ => cases hd
  | _ => cases hd

theorem Tidy.cancelsEarly {u : State Err} (hc : Core s) (hk : Tidy s) (hb : s.first.built = true)
    (hst : s.stack = []) (hsome : (s.checker.earlyCancelReturned true).isSome = true)
    (hg : s.first.done = true → s.clearOfSecond)
    (h : DoCancels { s with cancelling := true } true u) : Tidy u := by
  have hfin : s.finishes = [] := by
    by_contra hne
    cases (hk.finished hne).not_before.symm.trans (before_of_earlyCancelReturned hsome)
  have hu : Tidy { s with cancelling := true } :=
    { hk with finished := fun h => { hk.finished h with } }
  refine hu.doCancels hc.requestCancel hfin ?_ hb ?_ hg h
  · show s.stack.countP Frame.isDoCancel = 0
    rw [hst]
    rfl
  · simp only [waitsFor, if_true, hsome, Bool.or_true]

theorem Tidy.suspends {c : Checker} {ret : Bool} {u v : State Err} (hc : Core s) (hk : Tidy s)
    (hb : s.first.built = true) (hst : s.stack = []) (hcheck : s.checker.aboutToSuspend = some c)
    (hbeg : Begins { s with checker := c, parent := true } .first s.stage.isSecond u ret)
    (hcont : Continues (State.next s.stage.isSecond) u ret v) : Tidy v := by
  have hfin : s.finishes = [] := by
    by_contra hne
    have hbef := (hk.finished hne).not_before
    rcases aboutToSuspend_state hcheck with ⟨-, h⟩ | ⟨-, h⟩ <;> rw [h] at hbef <;> cases hbef
  have hno : ∀ f, f ∉ s.stack := by simp [hst]
  have hu : Tidy { s with checker := c, parent := true } := { hk with
    awaited := fun _ f hf => absurd hf (hno f)
    finished := fun h => absurd hfin h }
  have hset : ({ s with checker := c, parent := true } : State Err).Settled :=
    fun f hf => absurd hf (hno f)
  have hcu := hc.suspends hb hcheck
  refine (hu.begins hcu hset hbeg).next (hcu.begins (hc.mayBegin_suspends hst) hbeg)
    (fun _ hret => ?_) hcont
  subst hret
  exact settled_of_stack hset (stack_begins hbeg).1

theorem Tidy.preparing {a : Action Err} (hc : Core s) (hk : Tidy s) (hg : Orderly s a)
    (h : Preparing s a t) : Tidy t := by
  cases h with
  | ready _ hst hcheck => exact hk.check (isOver_readyReturned hcheck) (.inl hst)
  | cancelsEarly hb hst hsome h => exact hk.cancelsEarly hc hb hst hsome hg h
  | setsExecutor _ hst _ hcheck =>
    have hu := hk.check (by rw [aboutToSetExecutor_state hcheck]; exact id) (.inl hst)
    exact { hu with finished := fun h => { hu.finished h with } }
  | suspends hb hst hcheck hbeg hcont => exact hk.suspends hc hb hst hcheck hbeg hcont

theorem Tidy.performing {a : Action Err} (hc : Core s) (hk : Tidy s) (hg : Orderly s a)
    (h : Performing s a t) : Tidy t := by
  cases h with
  | cancels hb hrun h =>
    have hfin : s.finishes = [] := by
      by_contra hne
      have hover := (hk.finished hne).checker
      rw [hrun] at hover
      cases hover
    have hno := hk.no_doCancel hfin hrun
    have hu : Tidy { s with checker := s.checker.set .cancelling, cancelling := true } := { hk with
      awaited := fun _ f hf => awaited_of_not (by simpa using List.countP_eq_zero.1 hno f hf)
      finished := fun h => absurd hfin h }
    exact hu.doCancels (hc.cancels hrun) hfin hno hb rfl hg h
  | mustResume =>
    have hover : isOver (if s.mustResume then AwaiterStateChecker.State.ready else .cancelled) =
        true := by cases s.mustResume <;> rfl
    exact hk.check (fun _ => hover) (.inr hover)
  | takes _ hcheck =>
    have hst := aboutToResume_state hcheck
    exact hk.check (fun _ => by rw [hst]; rfl) (.inr (by rw [hst]; rfl))
  | destroys hb =>
    exact { hk with
      finished := fun h => { hk.finished h with }
      kept := fun _ => .inr ⟨rfl, hc.first.built hb⟩ }

theorem Tidy.change {a : Action Err} (hc : Core s) (hk : Tidy s) (hg : Orderly s a)
    (h : Change s a t) : Tidy t := by
  cases h with
  | @answers w => cases w <;> exact { hk with finished := fun h => { hk.finished h with } }
  | making h => exact hk.making hc h
  | answering h => exact hk.answering hc hg h
  | ending h => exact hk.ending hc hg h
  | preparing h => exact hk.preparing hc hg h
  | performing h => exact hk.performing hc hg h

end Corral.With
