import Corral.With.Progress

/-!
# The objects of the stages of a `with()` scope

`first_` is constructed by the constructor of `With`, whose argument may already signal readiness;
`secondStage_` exists only while `stage_` says so.  An exception out of the function that makes the
first stage, or out of `then()` before the parent has been suspended, leads to the use of an object
that is not there, or of a scope that is past its first stage.

* `Careful`: the runs without such an exception, and otherwise as in `Orderly`;
* `Starts`: how the stages are begun in them;
* `Told`: what the parent may conclude from what it has been told.
-/

namespace Corral.With

open ActionMachine AwaiterStateChecker

variable {Err : Type*} {s t u : State Err}

/-! ### The runs -/

/-- `await_suspend()` of the second stage is being called. -/
def State.suspendsSecond (s : State Err) : Bool :=
  match s.stack with
  | .suspend .second _ :: _ => true
  | _ => false

/-- The function that makes the first stage does not throw; `then()` does not throw before
`await_set_executor()`, and the parent is not suspended if the first stage has ended after `then()`
has thrown; and `await_suspend()` does not throw if the stage is the second one and has been asked to
cancel itself, or the first one and `then()` has thrown. -/
def Careful (s : State Err) : Action Err → Prop
  | .firstThrows => False
  | .thenThrows _ => s.checker.hasExecutor = true
  | .awaitSuspend => s.thrown.isSome = true → s.first.done = false
  | .suspendThrows err => Orderly s (.suspendThrows err) ∧
      (s.suspendsSecond = true → s.second.cancelling = false) ∧
      (s.suspendsFirst = true → s.thrown.isNone = true)
  | a => Orderly s a

instance (s : State Err) : (a : Action Err) → Decidable (Careful s a)
  | .firstThrows => isFalse id
  | .thenThrows _ => inferInstanceAs (Decidable (_ = _))
  | .awaitSuspend => inferInstanceAs (Decidable (_ → _))
  | .suspendThrows _ => inferInstanceAs (Decidable (_ ∧ _ ∧ _))
  | .resumes w => inferInstanceAs (Decidable (Orderly s (.resumes w)))
  | .earlyCancelReturns done => inferInstanceAs (Decidable (Orderly s (.earlyCancelReturns done)))
  | .cancelReturns done => inferInstanceAs (Decidable (Orderly s (.cancelReturns done)))
  | .awaitEarlyCancel => inferInstanceAs (Decidable (Orderly s .awaitEarlyCancel))
  | .awaitCancel => inferInstanceAs (Decidable (Orderly s .awaitCancel))
  | .firstReturns | .started | .thenReturns | .answers _ _ | .suspendReturns | .mustResumeReturns _
  | .resultReturns | .resultThrows _ | .secondDestroyed | .awaitReady | .awaitSetExecutor
  | .awaitMustResume | .awaitResume | .destroy => isTrue trivial

theorem orderly_of_careful {a : Action Err} (h : Careful s a) : Orderly s a := by
  cases a with
  | suspendThrows => exact h.1
  | firstThrows => exact h.elim
  | thenThrows => trivial
  | awaitSuspend => trivial
  | _ => exact h

/-! ### How the stages are begun -/

/-- The first stage is being begun, or has ended while it was, and the second one is to follow. -/
def Frame.withSecond : Frame Err → Bool
  | .beginEarlyCancel .first both => both
  | .suspend .first both => both
  | .mustResume .first both => both
  | .destroyThrown _ .first both => both
  | _ => false

/-- The stage `w` is asked whether it wants to be begun. -/
def Frame.beginning (w : Which) : Frame Err → Bool
  | .beginEarlyCancel w' _ => w' == w
  | _ => false

/-- A stage that is asked whether it wants to be begun waits for the answer; the second stage is begun
only if it has been made; and if the scope is being cancelled, a second stage that runs has been
asked. -/
structure Starts (s : State Err) : Prop where
  idle : ∀ w, ∀ f ∈ s.stack, f.beginning w = true → (s.get w).life = .idle
  made : ∀ f ∈ s.stack, f.withSecond = true → s.second.life ≠ .new
  asked : s.cancelling = true → s.second.life = .running → s.second.cancelling = true

theorem starts_init : Starts (State.init : State Err) where
  idle := fun w => List.forall_mem_singleton.2 fun h => by cases h
  made := List.forall_mem_singleton.2 fun h => by cases h
  asked := fun h => by cases h

theorem Starts.pop {f : Frame Err} {below : List (Frame Err)} (hs : Starts s)
    (hst : s.stack = f :: below) : Starts { s with stack := below } where
  idle := fun w g hg h => by
    have hl := hs.idle w g (hst ▸ List.mem_cons_of_mem f hg) h
    cases w <;> exact hl
  made := fun g hg => hs.made g (hst ▸ List.mem_cons_of_mem f hg)
  asked := hs.asked

theorem Starts.enter {f : Frame Err} (hs : Starts s)
    (hf : ∀ w, f.beginning w = true → (s.get w).life = .idle)
    (hmade : f.withSecond = true → s.second.life ≠ .new) : Starts (s.enter f) where
  idle := fun w => by
    have h := List.forall_mem_cons.2 ⟨hf w, hs.idle w⟩
    cases w <;> exact h
  made := List.forall_mem_cons.2 ⟨hmade, hs.made⟩
  asked := hs.asked

theorem Starts.call {f : Frame Err} (hs : Starts s) (hf : ∀ w, f.beginning w = false)
    (hmade : f.withSecond = true → s.second.life ≠ .new) : Starts (s.enter f) :=
  hs.enter (fun w h => absurd ((hf w).symm.trans h) (by simp)) hmade

/-- None of it depends on anything else. -/
theorem Starts.congr (hs : Starts s) (hst : t.stack = s.stack) (h₁ : t.first.life = s.first.life)
    (h₂ : t.second.life = s.second.life) (hcan : t.cancelling = s.cancelling)
    (hcan' : t.second.cancelling = s.second.cancelling) : Starts t where
  idle := fun w f hf h => by
    have hl := hs.idle w f (hst ▸ hf) h
    cases w with
    | first => exact h₁.trans hl
    | second => exact h₂.trans hl
  made := fun f hf hw => by
    rw [h₂]
    exact hs.made f (hst ▸ hf) hw
  asked := fun h hl => by
    rw [hcan']
    exact hs.asked (hcan.symm.trans h) (h₂.symm.trans hl)

/-- The life of a stage changes that is not asked whether it wants to be begun. -/
theorem Starts.live {w : Which} (hs : Starts s) (hno : ∀ f ∈ s.stack, f.beginning w = false)
    (hst : t.stack = s.stack) (hother : (t.get w.other).life = (s.get w.other).life)
    (hnew : w = .second → t.second.life ≠ .new)
    (hasked : t.cancelling = true → t.second.life = .running → t.second.cancelling = true) :
    Starts t where
  idle := fun w' f hf h => by
    rw [hst] at hf
    by_cases hw : w' = w
    · subst hw
      cases (hno f hf).symm.trans h
    · have hw' : w' = w.other := by cases w <;> cases w' <;> simp_all [Which.other]
      subst hw'
      exact hother.trans (hs.idle _ f hf h)
  made := fun f hf h => by
    rw [hst] at hf
    cases w with
    | first =>
      rw [show t.second.life = s.second.life from hother]
      exact hs.made f hf h
    | second => exact hnew rfl
  asked := hasked

theorem Starts.not_beginning {w : Which} (hs : Starts s) (hl : (s.get w).life ≠ .idle) :
    ∀ f ∈ s.stack, f.beginning w = false := by
  intro f hf
  by_contra h
  exact hl (hs.idle w f hf (by simpa using h))

theorem Starts.mark {w : Which} {a : Bool} (hs : Starts s) :
    Starts (s.set w { s.get w with cancelling := true, asked := a }) := by
  cases w with
  | first => exact hs.congr rfl rfl rfl rfl rfl
  | second =>
    refine ⟨fun w => ?_, hs.made, fun _ _ => rfl⟩
    cases w with
    | first => exact hs.idle .first
    | second => exact hs.idle .second

theorem Starts.refuse {w : Which} {no : Bool} (hs : Starts s) : Starts (s.refuse w no) := by
  cases w <;> exact hs.congr rfl rfl rfl rfl rfl

theorem Starts.finish {w : Which} (hs : Starts s) (hno : ∀ f ∈ s.stack, f.beginning w = false) :
    Starts (s.finish w) := by
  refine hs.live hno (stack_finish w) (life_finish_other w) ?_ fun h hl => ?_
  · rintro rfl
    simp [State.finish]
  · cases w with
    | first => exact hs.asked h hl
    | second => cases hl

theorem Starts.resumeParent (hs : Starts s) : Starts s.resumeParent := by
  unfold State.resumeParent
  split_ifs
  · exact hs.congr rfl rfl rfl rfl rfl
  · exact hs

theorem Starts.joins {w : Which} {both ret : Bool} (hs : Starts s) (h : Joins s w both u ret) :
    Starts u := by
  cases h with
  | last => exact hs.resumeParent
  | waits => exact hs
  | asks => exact hs.mark.call (fun _ => rfl) fun h => by cases h

theorem Starts.destroySecond {stage : Stage Err} {both : Bool} (hs : Starts s) :
    Starts (s.destroySecond stage both) := by
  have hu : Starts s.leave := hs.congr rfl rfl rfl rfl rfl
  exact hu.call (fun _ => rfl) fun h => by cases h

theorem Starts.settles {w : Which} {both ret : Bool} (hs : Starts s) (h : Settles s w both u ret) :
    Starts u := by
  cases h with
  | destroys => exact hs.destroySecond
  | takes => exact hs.call (fun _ => rfl) fun h => by cases h
  | joins _ h => exact hs.joins h

/-- What is known when a stage ends. -/
structure Free (s : State Err) (w : Which) (both : Bool) : Prop where
  first : ∀ f ∈ s.stack, f.beginning w = false
  made : w = .first → both = true → s.second.life ≠ .new

theorem Starts.ends {w : Which} {both ret : Bool} (hs : Starts s) (hf : Free s w both)
    (h : Ends s w both u ret) : Starts u := by
  have hu := hs.finish hf.first
  cases h with
  | asks =>
    refine hu.call (fun _ => rfl) fun h => ?_
    cases w with
    | first => exact hf.made rfl h
    | second => cases h
  | settles h => exact hu.settles h

/-- What is known when a stage is begun. -/
structure Fresh (s : State Err) (w : Which) (both : Bool) : Prop extends Free s w both where
  asked : w = .second → s.cancelling = true → s.second.cancelling = true

theorem Starts.readies {w : Which} {both ret : Bool} (hs : Starts s) (hf : Fresh s w both)
    (h : Readies s w both u ret) : Starts u := by
  cases h with
  | ready _ he => exact hs.ends hf.toFree he
  | suspends =>
    have hu : Starts (s.set w { s.get w with started := true, life := .running }) := by
      cases w with
      | first => exact hs.live (w := .first) hf.first rfl rfl (fun h => by cases h) hs.asked
      | second =>
        exact hs.live (w := .second) hf.first rfl rfl (fun _ => by simp) fun h _ => hf.asked rfl h
    refine hu.call (fun _ => rfl) fun hw => ?_
    cases w with
    | first => exact hf.made rfl hw
    | second => cases hw

theorem Starts.begins {w : Which} {both ret : Bool} (hc : Core s) (hs : Starts s)
    (hf : Free s w both) (hstart : w = .first → s.first.started = false ∧ s.stack = [])
    (h : Begins s w both u ret) : Starts u := by
  cases h with
  | done => exact hs
  | early hd hcan hnc hb =>
    have hu : Starts (s.set w { s.get w with cancelling := true, asked := (s.get w).asked }) :=
      hs.mark
    have hidle : (s.get w).life = .idle := by
      cases w with
      | first =>
        obtain ⟨hno, hst⟩ := hstart rfl
        rcases hc.first.alive (hc.first.built hb) hd with hal | hthrew
        · cases hl : s.first.life with
          | idle => exact hl
          | running => cases hno.symm.trans (hc.first.running hl)
          | _ =>
            rw [hl] at hal
            cases hal
        · have hclose := hc.closing_of_threw (w := .first) hthrew
          simp [State.closing, hst] at hclose
      | second =>
        have hal := hc.alive_of_built hb hd
        cases hl : s.second.life with
        | idle => exact hl
        | running => cases hnc.symm.trans (hs.asked hcan hl)
        | _ =>
          rw [hl] at hal
          cases hal
    refine hu.enter (fun w' h => ?_) fun hw => ?_
    · obtain rfl : w = w' := by simpa [Frame.beginning] using h
      rw [get_set]
      exact hidle
    · cases w with
      | first => exact hf.made rfl hw
      | second => cases hw
  | readies _ hcan hr =>
    refine hs.readies { hf with asked := ?_ } hr
    rintro rfl
    exact hcan

theorem not_beginning_of_opens {l : List (Frame Err)} (h : l.countP Frame.opens = 0) :
    ∀ f ∈ l, f.beginning .second = false := by
  intro f hf
  have hno := List.countP_eq_zero.1 h f hf
  cases f with
  | beginEarlyCancel w both =>
    cases w with
    | first => rfl
    | second => exact absurd rfl hno
  | _ => rfl

theorem Starts.beginsSecond {both ret : Bool} (hc : Core s) (hs : Starts s)
    (hone : s.stack.countP Frame.opens = 0) (h : Begins s .second both u ret) : Starts u :=
  hs.begins hc ⟨not_beginning_of_opens hone, by simp⟩ (by simp) h

/-- The second stage is begun if it is to be, and then no other activity opens it. -/
theorem Starts.next {both ret : Bool} (hc : Core s) (hs : Starts s)
    (hone : both = true → ret = true → s.signalled = true ∧ s.stack.countP Frame.opens = 0)
    (hcont : Continues (State.next both) s ret t) : Starts t := by
  rcases next_cases hcont with ⟨rfl, -⟩ | ⟨hret, hboth, ret', h⟩
  · exact hs
  · exact hs.beginsSecond hc (hone hboth hret).2 h

/-- A call returns, and the second stage is begun if it is to be. -/
theorem Starts.nextPop {f : Frame Err} {below : List (Frame Err)} {both : Bool} (hc : Core s)
    (hs : Starts s) (hst : s.stack = f :: below) (hth : ∀ w, f.isThrown w = false)
    (hop : both = true → f.opens = true)
    (hcont : Continues (State.next both) { s with stack := below } true t) : Starts t :=
  (hs.pop hst).next (hc.pop hst hth) (fun hboth _ => hc.opened hst (hop hboth)) hcont

theorem Starts.cancelReturned {early done : Bool} (hs : Starts s) :
    Starts (s.cancelReturned early done) :=
  hs.congr rfl rfl rfl rfl rfl

theorem Starts.cancelsFirst {early afterSecond : Bool} (hs : Starts s)
    (h : CancelsFirst s early afterSecond u) : Starts u := by
  cases h with
  | returns => exact hs.cancelReturned
  | asks =>
    have hu := hs.mark (w := .first) (a := s.first.started)
    exact hu.call (fun _ => rfl) fun h => by cases h

/-- `doCancel()` asks a second stage that runs. -/
theorem Starts.doCancels {c : Checker} {early : Bool} (hc : Core s) (hk : s.Kept) (hs : Starts s)
    (hb : s.first.built = true)
    (h : DoCancels { s with checker := c, cancelling := true } early u) : Starts u := by
  have hu : (s.second.life = .running → s.second.cancelling = true) →
      Starts { s with checker := c, cancelling := true } := fun h =>
    ⟨fun w => by cases w <;> exact hs.idle _, hs.made, fun _ => h⟩
  cases h with
  | again _ hcan => exact (hu fun _ => hcan).cancelReturned
  | gone _ _ hgone h =>
    refine (hu fun hrun => ?_).cancelsFirst h
    rcases hk (by rw [hrun]; rfl) with hb' | ⟨hnb, -⟩
    · cases hgone.symm.trans (hc.built.symm.trans hb')
    · cases hb.symm.trans hnb
  | asks =>
    have hm : Starts { s with
        checker := c
        cancelling := true
        second := { s.second with cancelling := true, asked := s.second.started } } :=
      ⟨fun w => by cases w <;> exact hs.idle _, hs.made, fun _ _ => rfl⟩
    exact hm.call (fun _ => rfl) fun h => by cases h
  | first hrun h => exact (hu fun hl => absurd hl (hc.not_running hrun)).cancelsFirst h

/-! ### Every step -/

theorem Starts.made' {executor : Bool} {below : List (Frame Err)} (hc : Core s) (hs : Starts s)
    (hst : s.stack = .thenFn executor :: below) : Starts ({ s with stack := below }.made) := by
  have hnew := (hc.thenFn _ (mem_top hst) rfl).1
  have hpop := hs.pop hst
  exact hpop.live (w := .second) (hpop.not_beginning (by simp [hnew])) rfl rfl
    (fun _ => by simp [State.made]) fun _ hl => by cases hl

theorem Starts.making {a : Action Err} (hc : Core s) (hs : Starts s) (h : Making s a t) :
    Starts t := by
  cases h with
  | constructs hst =>
    have hnew := hc.construct _ (mem_top hst) rfl
    have hpop := hs.pop hst
    exact hpop.live (w := .first) (hpop.not_beginning (by simp [hnew])) rfl rfl
      (fun h => by cases h) hs.asked
  | ignored => exact hs.congr rfl rfl rfl rfl rfl
  | signals =>
    have hu : Starts { s with signalled := true, stage := .none } := hs.congr rfl rfl rfl rfl rfl
    exact hu.call (fun _ => rfl) fun h => by cases h
  | makes hst => exact hs.made' hc hst
  | makesBegins hst _ h => exact (hs.made' hc hst).beginsSecond (hc.made hst) (hc.opened hst rfl).2 h
  | makesCancels hst =>
    have hu := (hs.made' hc hst).mark (w := .second) (a := s.second.started)
    exact hu.call (fun _ => rfl) fun h => by cases h
  | throwsWaits hst => exact (hs.pop hst).congr rfl rfl rfl rfl rfl
  | @throwsLast _ below err hst =>
    have hu : Starts { s with stack := below, stage := .exception err, thrown := some err } :=
      (hs.pop hst).congr rfl rfl rfl rfl rfl
    exact hu.resumeParent
  | @throwsAsks _ below err hst =>
    have hu : Starts { s with stack := below, stage := .exception err, thrown := some err } :=
      (hs.pop hst).congr rfl rfl rfl rfl rfl
    exact (hu.mark (w := .first) (a := s.first.started)).call (fun _ => rfl) fun h => by cases h

/-- The stage whose answer has come is not asked in another call. -/
theorem Core.not_beginning {w : Which} {f : Frame Err} {below : List (Frame Err)} (hc : Core s)
    (hst : s.stack = f :: below) (hf : f.asks w = true) : ∀ g ∈ below, g.beginning w = false := by
  intro g hg
  by_contra h
  have hone := hc.askOnce w
  rw [hst, List.countP_cons, if_pos hf] at hone
  have hzero : below.countP (Frame.asks w) = 0 := by omega
  refine List.countP_eq_zero.1 hzero g hg ?_
  cases g with
  | beginEarlyCancel w' both => simpa [Frame.beginning, Frame.asks] using h
  | _ => simp [Frame.beginning] at h

theorem Starts.beginConfirms {w : Which} {both ret : Bool} {below : List (Frame Err)} (hc : Core s)
    (hs : Starts s) (hst : s.stack = .beginEarlyCancel w both :: below)
    (he : Ends ({ s with stack := below }.refuse w true) w both u ret) : Starts u := by
  refine (hs.pop hst).refuse.ends ⟨?_, ?_⟩ he
  · have hno := hc.not_beginning (w := w) hst (by simp [Frame.asks])
    cases w <;> exact hno
  · rintro rfl hboth
    exact hs.made _ (mem_top hst) hboth

/-- The stage that has been asked has confirmed its cancellation. -/
theorem Starts.confirm {w : Which} {early : Bool} {caller : Caller} {below : List (Frame Err)}
    (hc : Core s) (hs : Starts s) (hst : s.stack = .cancelStage w early caller :: below) :
    Starts ({ s with stack := below }.confirm w) := by
  refine (hs.pop hst).refuse.finish ?_
  have hno := hc.not_beginning (w := w) hst (by simp [Frame.asks])
  cases w <;> exact hno

theorem Starts.answering {a : Action Err} (hc : Core s) (hs : Starts s) (h : Answering s a t) :
    Starts t := by
  cases h with
  | @beginReadies w both _ below _ _ hst hr hcont =>
    have hm := hc.mayBegin hst
    have hf : Fresh { s with stack := below } w both := {
      first := hc.not_beginning hst (by simp [Frame.asks])
      made := (by
        rintro rfl hboth
        exact hs.made _ (mem_top hst) hboth)
      asked := (by
        rintro rfl _
        exact hc.toCalls.asks .second (mem_top hst) rfl) }
    exact ((hs.pop hst).readies hf hr).next ((hc.pop hst fun _ => rfl).readies hm hr)
      (hm.toMayEnd.next fun hret => by subst hret; exact stack_readies hr) hcont
  | @beginConfirms w both _ below _ _ hst hin he hcont =>
    have hm : MayEnd ({ s with stack := below }.refuse w true) w both := by
      refine (hc.mayBegin hst).congr ?_ ?_ ?_ <;> cases w <;> rfl
    exact (hs.beginConfirms hc hst he).next (hc.refusedEnds hst hin he)
      (hm.next fun hret => by subst hret; exact stack_ends he) hcont
  | refusesDone hst hcont => exact hs.nextPop hc hst (fun _ => rfl) (hc.opens_onStageDone hst) hcont
  | refusesDoCancel hst => exact (hs.pop hst).cancelReturned
  | refusesThrew hst => exact hs.pop hst
  | refusesStarted hst hcont =>
    exact hs.nextPop hc hst (fun _ => rfl) (fun _ => hc.opens_markStarted hst) hcont
  | @confirmsDone w _ _ _ _ hst hin hcont =>
    refine (hs.confirm hc hst).resumeParent.next (hc.confirmed hst hin).resumeParent
      (fun hboth _ => ?_) hcont
    rw [signalled_resumeParent, stack_resumeParent]
    have hop := hc.opened hst (hc.opens_onStageDone hst hboth)
    cases w <;> exact hop
  | confirmsSecond hst _ h => exact (hs.confirm hc hst).cancelsFirst h
  | confirmsFirst hst => exact (hs.confirm hc hst).cancelReturned
  | confirmsThrew hst => exact (hs.confirm hc hst).resumeParent
  | confirmsStarted hst _ he =>
    exact (hs.pop hst).refuse.ends ⟨hc.not_beginning hst rfl, by simp⟩ he

theorem Starts.ending {a : Action Err} (hc : Core s) (hs : Starts s) (h : Ending s a t) :
    Starts t := by
  cases h with
  | suspendReturns hst hcont => exact hs.nextPop hc hst (fun _ => rfl) (opens_suspend hc hst) hcont
  | @suspendThrows w both _ below err _ _ hst hin _ he hcont =>
    obtain ⟨hcs, hal, hm⟩ := hc.threw err hst hin
    have hu : Starts ({ s with stack := below }.switchTo (.exception err)) :=
      (hs.pop hst).congr rfl rfl rfl rfl rfl
    refine (hu.ends ⟨hu.not_beginning ?_, ?_⟩ he).next (hcs.endsAlive hal hm he)
      (hm.next fun hret => by subst hret; exact stack_ends he) hcont
    · have hl : (s.get w).life = .running := (isIn_iff.1 hin).2
      have hne : (s.get w).life ≠ .idle := by simp [hl]
      cases w <;> exact hne
    · rintro rfl hboth
      exact hs.made _ (mem_top hst) hboth
  | @suspendFails w both below err hst hin =>
    have hpop := hs.pop hst
    have hl : (s.get w).life = .running := (isIn_iff.1 hin).2
    have hne : (s.get w).life ≠ .idle := by simp [hl]
    have hu : Starts ({ s with stack := below }.fail w).leave := by
      refine hpop.live (w := w) (hpop.not_beginning ?_) ?_ ?_ ?_ ?_
      · cases w <;> exact hne
      · cases w <;> rfl
      · cases w <;> rfl
      · rintro rfl
        simp [State.leave, State.fail]
      · intro h hl
        cases w with
        | first => exact hs.asked h hl
        | second => cases hl
    refine hu.call (fun _ => rfl) fun h => ?_
    cases w with
    | first => exact hs.made _ (mem_top hst) h
    | second => cases h
  | @resumes w _ _ hin he =>
    refine hs.ends ⟨hs.not_beginning ?_, by simp⟩ he
    rw [(isIn_iff.1 hin).2]
    simp
  | mustResumes hst _ hj hcont =>
    obtain ⟨hcr, hend, hm⟩ := hc.mustResumed hst _
    exact ((hs.pop hst).refuse.settles hj).next (hcr.settles hend hm hj)
      (hm.next fun hret => by subst hret; exact stack_settles hj) hcont
  | @takesResult both below hst =>
    have hu : Starts { s with stack := below, hasSecondResult := true } :=
      (hs.pop hst).congr rfl rfl rfl rfl rfl
    exact hu.destroySecond
  | resultThrows hst => exact (hs.pop hst).destroySecond
  | @destroyed stage _ _ below _ _ hst _ hj hcont =>
    obtain rfl := hc.both_destroySecond hst
    have hu : Starts { s with stack := below, stage := stage } :=
      (hs.pop hst).congr rfl rfl rfl rfl rfl
    exact (hu.joins hj).next (hc.joinsDestroyed hst hj) (by simp) hcont
  | @destroyedThrown err w both _ below _ _ hst _ he hcont =>
    have hm := hc.mayEnd_destroyThrown hst
    have hl := (hc.life_of_destroyThrown hst).1
    have hne : (s.get w).life ≠ .idle := by simp [hl]
    have hu : Starts { s with stack := below, stage := .exception err } :=
      (hs.pop hst).congr rfl rfl rfl rfl rfl
    refine (hu.ends ⟨hu.not_beginning ?_, fun _ _ => (hc.gone _ (mem_top hst) rfl).1⟩ he).next
      (hc.endsDestroyed hst he)
      (hm.next fun hret => by subst hret; exact stack_ends he) hcont
    cases w <;> exact hne

theorem Starts.suspends {c : Checker} {ret : Bool} {v : State Err} (hc : Core s) (hs : Starts s)
    (hb : s.first.built = true) (hst : s.stack = []) (hcheck : s.checker.aboutToSuspend = some c)
    (hbeg : Begins { s with checker := c, parent := true } .first s.stage.isSecond u ret)
    (hcont : Continues (State.next s.stage.isSecond) u ret v) : Starts v := by
  have hp : s.parent = false := by
    by_contra hp
    have hbef := (hc.parented (by simpa using hp)).2
    rcases aboutToSuspend_state hcheck with ⟨-, h⟩ | ⟨-, h⟩ <;> rw [h] at hbef <;> cases hbef
  have hu : Starts { s with checker := c, parent := true } := hs.congr rfl rfl rfl rfl rfl
  have hcu := hc.suspends hb hcheck
  have hm := hc.mayBegin_suspends (c := c) hst
  refine (hu.begins hcu ⟨?_, fun _ hin => ?_⟩ (fun _ => ⟨hc.unparented hp, hst⟩)
    hbeg).next
    (hcu.begins hm hbeg) (hm.toMayEnd.next fun hret => by subst hret; exact stack_begins hbeg) hcont
  · show ∀ f ∈ s.stack, f.beginning .first = false
    rw [hst]
    simp
  · exact hc.second.built (hc.built.trans hin)

theorem Starts.change {a : Action Err} (hc : Core s) (hk : s.Kept) (hs : Starts s)
    (h : Change s a t) : Starts t := by
  cases h with
  | @answers w => cases w <;> exact hs.congr rfl rfl rfl rfl rfl
  | making h => exact hs.making hc h
  | answering h => exact hs.answering hc h
  | ending h => exact hs.ending hc h
  | preparing h =>
    cases h with
    | ready => exact hs.congr rfl rfl rfl rfl rfl
    | cancelsEarly hb _ _ h => exact hs.doCancels hc hk hb h
    | setsExecutor => exact hs.congr rfl rfl rfl rfl rfl
    | suspends hb hst hcheck hbeg hcont => exact hs.suspends hc hb hst hcheck hbeg hcont
  | performing h =>
    cases h with
    | cancels hb _ h => exact hs.doCancels hc hk hb h
    | mustResume => exact hs.congr rfl rfl rfl rfl rfl
    | takes => exact hs.congr rfl rfl rfl rfl rfl
    | destroys => exact hs.congr rfl rfl rfl rfl rfl

/-! ### What the parent has been told -/

/-- When the parent takes the scope to be over, the stages have ended, and nothing that is in progress
uses it. -/
def Told (s : State Err) : Prop := isTold s.checker.state = true → Past s

theorem isTold_readyReturned {c c' : Checker} {val : Bool} (h : c.readyReturned val = some c')
    (ht : isTold c'.state = true) : isTold c.state = true ∨ val = true := by
  obtain ⟨st, ex⟩ := c
  cases st <;> cases val <;> cases h <;> first | exact .inr rfl | exact .inl rfl | cases ht

/-- The parent is told that the scope is over by the stages, or by `await_ready()`. -/
theorem told_of_change {a : Action Err} (hc : Core s) (h : Change s a t) (hfin : t.finishes = [])
    (ht : isTold t.checker.state = true) : isTold s.checker.state = true ∨ Past t := by
  cases h with
  | @answers w => exact .inl (by cases w <;> exact ht)
  | making h => exact .inl ((keeps_making h).2.2 hfin ht)
  | answering h => exact .inl ((keeps_answering h).told hfin ht)
  | ending h => exact .inl ((keeps_ending h).told hfin ht)
  | preparing h =>
    cases h with
    | ready _ hst hcheck =>
      rcases isTold_readyReturned hcheck ht with h | h
      · exact .inl h
      · simp only [Bool.and_eq_true] at h
        refine .inr ⟨hc.firstDone h.1, alive_of_done hc.second h.2, fun f hf => ?_⟩
        rw [show s.stack = [] from hst] at hf
        cases hf
    | cancelsEarly _ _ _ h => exact .inl ((within_doCancels h).told hfin ht)
    | setsExecutor _ _ _ hcheck => exact .inl (aboutToSetExecutor_state hcheck ▸ ht)
    | suspends _ _ hcheck h hcont =>
      have hno := ((within_begins h).trans (within_next hcont)).told hfin ht
      rcases aboutToSuspend_state hcheck with ⟨h', -⟩ | ⟨h', -⟩ <;> (rw [h'] at hno; cases hno)
  | performing h =>
    cases h with
    | cancels _ _ h => cases (within_doCancels h).told hfin ht
    | mustResume _ _ hst => exact .inl (by rw [hst]; rfl)
    | takes _ hcheck =>
      left
      unfold Checker.aboutToResume at hcheck
      split_ifs at hcheck with h
      rcases h with h | h <;> rw [h] <;> rfl
    | destroys => exact .inl ht

theorem Told.change {a : Action Err} (hc : Core s) (hk : Tidy t) (ht : Told s) (h : Change s a t) :
    Told t := by
  intro hover
  by_cases hfin : t.finishes = []
  · rcases told_of_change hc h hfin hover with hs | hp
    · exact (ht hs).change hc h
    · exact hp
  · exact (hk.finished hfin).toPast

/-- While a stage is alive, is being closed or is being made, the parent has not been told
anything. -/
theorem Told.of_busy {f : Frame Err} {below : List (Frame Err)} (ht : Told s)
    (hst : s.stack = f :: below) (hf : f.busy = true) : isTold s.checker.state = false := by
  by_contra h
  exact (ht (by simpa using h)).not_busy hst hf

end Corral.With
