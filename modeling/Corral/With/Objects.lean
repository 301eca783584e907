import Corral.With.Construction

/-!
# What becomes of the objects of a `with()` scope

* `Unprepared`: what holds before `await_set_executor()`;
* `Serving`: the object of the second stage exists as long as a call needs it;
* `State.Held`: the object of the first stage exists until the stages have ended or the scope has been
  destroyed without having been used;
* `Sound`: what holds in the runs without an exception at the wrong moment.
-/

namespace Corral.With

open ActionMachine AwaiterStateChecker

variable {Err : Type*} {s t u : State Err}

/-! ### Before an executor is set -/

/-- No stage has been begun, and there has been no exception. -/
structure Unprepared (s : State Err) : Prop extends Unbegun s where
  exception : ∀ err, s.stage ≠ .exception err

theorem unprepared_init : Unprepared (State.init : State Err) :=
  ⟨unbegun_init, fun _ => by simp [State.init]⟩

theorem stage_cancelsFirst {early afterSecond : Bool} (h : CancelsFirst s early afterSecond u) :
    u.stage = s.stage := by
  cases h <;> rfl

theorem stage_doCancels {early : Bool} (h : DoCancels s early u) : u.stage = s.stage := by
  cases h with
  | again => rfl
  | gone _ _ _ h => exact stage_cancelsFirst h
  | asks => rfl
  | first _ h => exact stage_cancelsFirst h

theorem Unprepared.making {a : Action Err} (hu : Unprepared s) (hex : ¬ s.checker.hasExecutor = true)
    (hg : Careful s a) (h : Making s a t) : ∀ err, t.stage ≠ .exception err := by
  cases h with
  | constructs => exact hu.exception
  | ignored => exact hu.exception
  | signals => exact fun _ => by simp [State.enter]
  | makes => exact fun _ => by simp [State.made]
  | makesBegins hst => cases hu.top hst
  | makesCancels => exact fun _ => by simp [State.made, State.enter]
  | throwsWaits => exact absurd hg hex
  | throwsLast => exact absurd hg hex
  | throwsAsks => exact absurd hg hex

theorem Unprepared.answering {a : Action Err} (hu : Unprepared s) (hp : s.parent = false)
    (h : Answering s a t) : ∀ err, t.stage ≠ .exception err := by
  cases h with
  | beginReadies hst => cases hu.top hst
  | beginConfirms hst => cases hu.top hst
  | @refusesDone w _ _ _ _ hst => cases w <;> cases hu.top hst
  | refusesDoCancel => exact hu.exception
  | refusesThrew => exact hu.exception
  | @refusesStarted w _ _ _ _ hst => cases w <;> cases hu.top hst
  | @confirmsDone w _ _ _ _ hst => cases w <;> cases hu.top hst
  | confirmsSecond hst => cases hu.top hst
  | confirmsFirst => exact hu.exception
  | confirmsThrew =>
    rw [resumeParent_of_not (by exact hp)]
    exact hu.exception
  | confirmsStarted hst => cases hu.top hst

/-- While no stage has been begun, an exception can only come out of `then()`. -/
theorem Unprepared.change {a : Action Err} (hc : Core s) (hu : Unprepared s)
    (hex : s.checker.hasExecutor = false) (hg : Careful s a) (hne : a ≠ .awaitSuspend)
    (h : Change s a t) : Unprepared t := by
  have hnot : ¬ s.checker.hasExecutor = true := by simp [hex]
  have hp : s.parent = false := by
    by_contra h'
    exact hnot (hc.executor (.inr (by simpa using h')))
  have hfirst : s.stage.isFirst = false := by
    by_contra h'
    exact hnot (hc.executor (.inl (by simpa using h')))
  refine ⟨hu.toUnbegun.change hc hp hne (fun _ => hfirst) h, ?_⟩
  cases h with
  | @answers w => cases w <;> exact hu.exception
  | making h => exact hu.making hnot hg h
  | answering h => exact hu.answering hp h
  | ending h => exact (hu.toUnbegun.not_ending hc hp h).elim
  | preparing h =>
    cases h with
    | ready => exact hu.exception
    | cancelsEarly _ _ _ h =>
      rw [stage_doCancels h]
      exact hu.exception
    | setsExecutor _ _ _ _ hor =>
      intro err h
      rcases hor with ⟨-, h'⟩ | ⟨-, h'⟩ <;> cases h'.symm.trans h
    | suspends => exact absurd rfl hne
  | performing h =>
    cases h with
    | cancels _ hrun => exact absurd hrun (hc.not_running_of_unparented hp)
    | mustResume => exact hu.exception
    | takes => exact hu.exception
    | destroys => exact fun _ => by simp

/-! ### The object of the second stage -/

/-- The calls that use the object of the second stage. -/
def Frame.serves : Frame Err → Bool
  | .mustResume .second _ => true
  | .result _ => true
  | _ => false

theorem closes_of_serves {f : Frame Err} (h : f.serves = true) : f.closes .second = true := by
  cases f with
  | mustResume w both => cases w <;> first | rfl | cases h
  | result both => rfl
  | _ => cases h

/-- The object exists while it is used, and a second stage that has thrown has not been asked to
cancel itself. -/
structure Serving (s : State Err) : Prop where
  built : ∀ f ∈ s.stack, f.serves = true → s.second.built = true
  threw : s.second.life = .threw → s.second.cancelling = false

theorem serving_init : Serving (State.init : State Err) where
  built := List.forall_mem_singleton.2 fun h => by cases h
  threw := fun h => by cases h

/-- The object is neither destroyed nor used by another call, and the second stage is not asked after
it has thrown. -/
structure Lasts (s t : State Err) : Prop where
  serves : ∀ f ∈ t.stack, f.serves = true → f ∈ s.stack
  built : s.second.built = true → t.second.built = true
  threw : t.second.life = .threw →
    s.second.life = .threw ∧ t.second.cancelling = s.second.cancelling

theorem Lasts.refl (s : State Err) : Lasts s s := ⟨fun _ hf _ => hf, id, fun h => ⟨h, rfl⟩⟩

theorem Lasts.trans (h₁ : Lasts s t) (h₂ : Lasts t u) : Lasts s u where
  serves := fun f hf h => h₁.serves f (h₂.serves f hf h) h
  built := fun h => h₂.built (h₁.built h)
  threw := fun h => by
    obtain ⟨ht, heq⟩ := h₂.threw h
    exact ⟨(h₁.threw ht).1, heq.trans (h₁.threw ht).2⟩

theorem Serving.lasts (hs : Serving s) (h : Lasts s t) : Serving t where
  built := fun f hf hserve => h.built (hs.built f (h.serves f hf hserve) hserve)
  threw := fun ht => (h.threw ht).2.trans (hs.threw (h.threw ht).1)

theorem lasts_pop {f : Frame Err} {below : List (Frame Err)} (hst : s.stack = f :: below) :
    Lasts s { s with stack := below } :=
  { Lasts.refl s with serves := fun _ hg _ => hst ▸ List.mem_cons_of_mem f hg }

theorem Lasts.call {f : Frame Err} (h : Lasts s u) (hf : f.serves = false) : Lasts s (u.enter f) :=
  { h with
    serves := List.forall_mem_cons.2 ⟨fun h' => absurd (hf.symm.trans h') (by simp), h.serves⟩ }

/-- A stage that exists is asked. -/
theorem lasts_mark {w : Which} {a : Bool} (hc : Core s) (hb : (s.get w).built = true) :
    Lasts s (s.set w { s.get w with cancelling := true, asked := a }) := by
  cases w with
  | first => exact { Lasts.refl s with }
  | second =>
    exact { Lasts.refl s with
      threw := fun h => absurd ((hc.not_built_of_threw h).symm.trans hb) (by simp) }

theorem lasts_refuse {w : Which} (no : Bool) : Lasts s (s.refuse w no) := by
  cases w <;> exact { Lasts.refl s with }

theorem lasts_finish {w : Which} : Lasts s (s.finish w) := by
  cases w with
  | first => exact { Lasts.refl s with }
  | second => exact { Lasts.refl s with threw := fun h => by cases h }

theorem lasts_resumeParent : Lasts s s.resumeParent := by
  unfold State.resumeParent
  split_ifs <;> exact { Lasts.refl s with }

theorem lasts_cancelReturned {early done : Bool} : Lasts s (s.cancelReturned early done) :=
  { Lasts.refl s with }

theorem lasts_joins {w : Which} {both ret : Bool} (hc : Core s) (h : Joins s w both u ret) :
    Lasts s u := by
  cases h with
  | last => exact lasts_resumeParent
  | waits => exact .refl s
  | asks _ _ _ hb => exact (lasts_mark hc hb).call rfl

theorem lasts_cancelsFirst {early afterSecond : Bool} (hc : Core s)
    (h : CancelsFirst s early afterSecond u) : Lasts s u := by
  cases h with
  | returns => exact lasts_cancelReturned
  | asks _ _ hb => exact (lasts_mark (w := .first) hc hb).call rfl

theorem lasts_doCancels {early : Bool} (hc : Core s) (h : DoCancels s early u) : Lasts s u := by
  cases h with
  | again => exact lasts_cancelReturned
  | gone _ _ _ h => exact lasts_cancelsFirst hc h
  | asks _ _ hb => exact (lasts_mark (w := .second) hc hb).call rfl
  | first _ h => exact lasts_cancelsFirst hc h

/-- The second stage is destroyed, and nothing uses it any more. -/
theorem Serving.destroySecond {stage : Stage Err} {both : Bool} (hs : Serving s)
    (hno : ∀ f ∈ s.stack, f.serves = false) : Serving (s.destroySecond stage both) where
  built := List.forall_mem_cons.2
    ⟨fun h => (by cases h), fun f hf h => absurd ((hno f hf).symm.trans h) (by simp)⟩
  threw := hs.threw

/-- A call is made that uses the object. -/
theorem Serving.serve {f : Frame Err} (hs : Serving s) (hb : s.second.built = true) :
    Serving (s.enter f) where
  built := fun _ _ _ => hb
  threw := hs.threw

theorem Serving.settles {w : Which} {both ret : Bool} (hc : Core s) (hs : Serving s)
    (hno : w = .second → ∀ f ∈ s.stack, f.serves = false) (h : Settles s w both u ret) :
    Serving u := by
  cases h with
  | destroys hw => exact hs.destroySecond (hno hw)
  | takes _ hin => exact hs.serve (hc.built.trans hin)
  | joins _ h => exact hs.lasts (lasts_joins hc h)

theorem Serving.ends {w : Which} {both ret : Bool} (hc : Core (s.finish w)) (hs : Serving s)
    (hno : w = .second → ∀ f ∈ s.stack, f.serves = false) (h : Ends s w both u ret) :
    Serving u := by
  have hf : Serving (s.finish w) := hs.lasts lasts_finish
  cases h with
  | asks _ _ hb =>
    cases w with
    | first => exact hf.lasts ((Lasts.refl _).call rfl)
    | second => exact hf.serve hb
  | settles h =>
    refine hf.settles hc (fun hw => ?_) h
    subst hw
    exact hno rfl

/-- A stage that is alive ends. -/
theorem Serving.endsAlive {w : Which} {both ret : Bool} (hc : Core s) (hs : Serving s)
    (hal : (s.get w).life.alive = true) (h : Ends s w both u ret) : Serving u := by
  refine hs.ends (hc.finish (not_new_of_alive hal) (not_threw_of_alive hal)) (fun hw f hf => ?_) h
  subst hw
  by_contra hserve
  have hclose := closes_of_serves (by simpa using hserve)
  cases (hc.not_closes_of_alive hal f hf).symm.trans hclose

theorem Serving.readies {w : Which} {both ret : Bool} (hc : Core s) (hs : Serving s)
    (h : Readies s w both u ret) : Serving u := by
  cases h with
  | ready hin he => exact hs.endsAlive hc (alive_of_isIn hin rfl) he
  | suspends =>
    have hu : Lasts s (s.set w { s.get w with started := true, life := .running }) := by
      cases w with
      | first => exact { Lasts.refl s with }
      | second => exact { Lasts.refl s with threw := fun h => by cases h }
    exact hs.lasts (hu.call rfl)

theorem Serving.begins {w : Which} {both ret : Bool} (hc : Core s) (hs : Serving s)
    (h : Begins s w both u ret) : Serving u := by
  cases h with
  | done => exact hs
  | early _ _ _ hb =>
    have hu : Lasts s (s.set w { s.get w with cancelling := true, asked := (s.get w).asked }) :=
      lasts_mark hc hb
    exact hs.lasts (hu.call rfl)
  | readies _ _ hr => exact hs.readies hc hr

theorem Serving.next {both ret : Bool} (hc : Core s) (hs : Serving s)
    (hcont : Continues (State.next both) s ret t) : Serving t := by
  rcases next_cases hcont with ⟨rfl, -⟩ | ⟨-, -, ret', h⟩
  · exact hs
  · exact hs.begins hc h

theorem serving_made : Serving s.made where
  built := fun _ _ _ => rfl
  threw := fun h => by cases h

theorem Serving.making {a : Action Err} (hc : Core s) (hs : Serving s) (h : Making s a t) :
    Serving t := by
  cases h with
  | constructs hst => exact hs.lasts { lasts_pop hst with }
  | ignored => exact hs.lasts { Lasts.refl s with }
  | signals =>
    have hu : Lasts s { s with signalled := true, stage := .none } := { Lasts.refl s with }
    exact hs.lasts (hu.call rfl)
  | makes => exact serving_made
  | makesBegins hst _ h => exact serving_made.begins (hc.made hst) h
  | makesCancels hst =>
    have hu := lasts_mark (w := .second) (a := s.second.started) (hc.made hst) rfl
    exact serving_made.lasts (hu.call rfl)
  | throwsWaits hst => exact hs.lasts { lasts_pop hst with }
  | @throwsLast _ below err hst =>
    have hu : Lasts s { s with stack := below, stage := .exception err, thrown := some err } :=
      { lasts_pop hst with }
    exact hs.lasts (hu.trans lasts_resumeParent)
  | @throwsAsks _ below err hst _ _ hb =>
    have hu : Lasts s { s with stack := below, stage := .exception err, thrown := some err } :=
      { lasts_pop hst with }
    have hm := lasts_mark (w := .first) (a := s.first.started) (hc.thenThrew err hst) hb
    exact hs.lasts ((hu.trans hm).call rfl)

theorem Serving.answering {a : Action Err} (hc : Core s) (hs : Serving s) (h : Answering s a t) :
    Serving t := by
  cases h with
  | beginReadies hst hr hcont =>
    have hcp := hc.pop hst fun _ => rfl
    exact ((hs.lasts (lasts_pop hst)).readies hcp hr).next (hcp.readies (hc.mayBegin hst) hr) hcont
  | @beginConfirms w _ _ below _ _ hst hin he hcont =>
    have hal : ((({ s with stack := below } : State Err).refuse w true).get w).life.alive = true := by
      rw [life_refuse]
      have hal := alive_of_isIn hin rfl
      cases w <;> exact hal
    have hu := (hs.lasts (lasts_pop hst)).lasts (lasts_refuse (w := w) true)
    exact (hu.endsAlive (hc.pop hst fun _ => rfl).refuse hal he).next (hc.refusedEnds hst hin he) hcont
  | refusesDone hst hcont => exact (hs.lasts (lasts_pop hst)).next (hc.pop hst fun _ => rfl) hcont
  | refusesDoCancel hst => exact hs.lasts ((lasts_pop hst).trans lasts_cancelReturned)
  | refusesThrew hst => exact hs.lasts (lasts_pop hst)
  | refusesStarted hst hcont => exact (hs.lasts (lasts_pop hst)).next (hc.pop hst fun _ => rfl) hcont
  | @confirmsDone w _ _ _ _ hst hin hcont =>
    have hu := ((lasts_pop hst).trans (lasts_refuse (w := w) true)).trans
      (lasts_finish (w := w))
    exact (hs.lasts (hu.trans lasts_resumeParent)).next (hc.confirmed hst hin).resumeParent hcont
  | confirmsSecond hst hin h =>
    have hu := ((lasts_pop hst).trans (lasts_refuse (w := .second) true)).trans
      (lasts_finish (w := .second))
    exact hs.lasts (hu.trans (lasts_cancelsFirst (hc.confirmed hst hin) h))
  | confirmsFirst hst => exact hs.lasts { lasts_pop hst with }
  | confirmsThrew hst =>
    have hu := ((lasts_pop hst).trans (lasts_refuse (w := .first) true)).trans
      (lasts_finish (w := .first))
    exact hs.lasts (hu.trans lasts_resumeParent)
  | @confirmsStarted _ _ _ below _ hst hin he =>
    have hal : s.second.life.alive = true := alive_of_isIn hin alive_ite
    have hcr : Core ({ s with stack := below }.refuse .second true) :=
      (hc.pop hst fun _ => rfl).refuse
    have hu := (hs.lasts (lasts_pop hst)).lasts (lasts_refuse (w := .second) true)
    exact hu.endsAlive (w := .second) hcr hal he

/-- A call returns that closes a stage, and none is closed by another one. -/
theorem Tidy.not_serves_below {f : Frame Err} {below : List (Frame Err)} (hk : Tidy s)
    (hst : s.stack = f :: below) (hf : f.isDoCancel = false) : ∀ g ∈ below, g.serves = false := by
  intro g hg
  by_contra hserve
  have hclose := closes_of_serves (by simpa using hserve)
  cases (hk.clear_below hst hf .second g hg).symm.trans hclose

/-- `await_suspend()` of the second stage has thrown. -/
theorem Serving.suspendFails {both : Bool} {below : List (Frame Err)} {err : Err} (hk : Tidy s)
    (hst : s.stack = .suspend .second both :: below) (hcan : s.second.cancelling = false) :
    Serving (({ s with stack := below }.fail .second).leave.enter
      (.destroyThrown err .second both)) where
  built := List.forall_mem_cons.2 ⟨fun h => (by cases h), fun f hf h =>
    absurd ((hk.not_serves_below hst rfl f hf).symm.trans h) (by simp)⟩
  threw := fun _ => hcan

theorem Serving.ending {a : Action Err} (hc : Core s) (hk : Tidy s) (hs : Serving s)
    (hg : Careful s a) (h : Ending s a t) : Serving t := by
  cases h with
  | suspendReturns hst hcont => exact (hs.lasts (lasts_pop hst)).next (hc.pop hst fun _ => rfl) hcont
  | @suspendThrows w _ _ below err _ _ hst hin hsec he hcont =>
    obtain ⟨hcs, hal, hm⟩ := hc.threw err hst hin
    have hu : Lasts s ({ s with stack := below }.switchTo (.exception err)) := by
      rw [switchTo_of_absent (hc.pop hst fun _ => rfl) hsec]
      exact { lasts_pop hst with }
    exact ((hs.lasts hu).endsAlive hcs hal he).next (hcs.endsAlive hal hm he) hcont
  | @suspendFails w _ _ _ hst _ hsec =>
    cases w with
    | first => cases (hg.1 (by simp [State.suspendsFirst, hst])).symm.trans hsec
    | second => exact Serving.suspendFails hk hst (hg.2.1 (by simp [State.suspendsSecond, hst]))
  | resumes hin he => exact hs.endsAlive hc (alive_of_isIn hin rfl) he
  | @mustResumes w must _ _ below _ _ hst _ hj hcont =>
    obtain ⟨hcr, hend, hm⟩ := hc.mustResumed hst ((s.get w).mustNotResume || !must)
    have hno : ∀ f ∈ (({ s with stack := below } : State Err).refuse w
        ((s.get w).mustNotResume || !must)).stack, f.serves = false := by
      have hbelow := hk.not_serves_below hst rfl
      cases w <;> exact hbelow
    exact ((hs.lasts ((lasts_pop hst).trans (lasts_refuse _))).settles hcr (fun _ => hno) hj).next
      (hcr.settles hend hm hj) hcont
  | @takesResult _ below hst =>
    have hu : Lasts s { s with stack := below, hasSecondResult := true } := { lasts_pop hst with }
    exact (hs.lasts hu).destroySecond (hk.not_serves_below hst rfl)
  | resultThrows hst =>
    exact (hs.lasts (lasts_pop hst)).destroySecond (hk.not_serves_below hst rfl)
  | @destroyed stage _ _ below _ _ hst _ hj hcont =>
    obtain rfl := hc.both_destroySecond hst
    have hu : Lasts s { s with stack := below, stage := stage } := { lasts_pop hst with }
    exact ((hs.lasts hu).lasts (lasts_joins (hc.destroyed hst) hj)).next
      (hc.joinsDestroyed hst hj) hcont
  | @destroyedThrown err w _ _ below _ _ hst _ he hcont =>
    have hu : Lasts s { s with stack := below, stage := .exception err } := { lasts_pop hst with }
    exact ((hs.lasts hu).ends (hc.endsThrown hst) (fun _ => hk.not_serves_below hst rfl) he).next
      (hc.endsDestroyed hst he) hcont

theorem Serving.preparing {a : Action Err} (hc : Core s) (hs : Serving s) (h : Preparing s a t) :
    Serving t := by
  cases h with
  | ready => exact hs.lasts { Lasts.refl s with }
  | cancelsEarly _ _ _ h =>
    have hu : Serving { s with cancelling := true } := hs.lasts { Lasts.refl s with }
    exact hu.lasts (lasts_doCancels hc.requestCancel h)
  | setsExecutor => exact hs.lasts { Lasts.refl s with }
  | @suspends c _ _ _ hb hst hcheck hbeg hcont =>
    have hcu := hc.suspends hb hcheck
    have hu : Serving { s with checker := c, parent := true } := hs.lasts { Lasts.refl s with }
    exact (hu.begins hcu hbeg).next (hcu.begins (hc.mayBegin_suspends hst) hbeg) hcont

theorem isTold_of_mayReset {c : Checker} (h : c.mayReset = true) :
    isTold c.state = true ∨ c.state = .initial := by
  obtain ⟨st, ex⟩ := c
  cases st <;> first | exact .inl rfl | exact .inr rfl | cases h

/-- The scope is destroyed only when nothing uses it. -/
theorem Told.settled (ht : Told s) (hreset : s.checker.mayReset = true)
    (hst : s.checker.state = .initial → s.stack = []) : s.Settled := by
  rcases isTold_of_mayReset hreset with h | h
  · exact (ht h).settled
  · intro f hf
    rw [hst h] at hf
    cases hf

theorem Serving.performing {a : Action Err} (hc : Core s) (ht : Told s) (hs : Serving s)
    (h : Performing s a t) : Serving t := by
  cases h with
  | cancels _ hrun h =>
    have hu : Serving { s with checker := s.checker.set .cancelling, cancelling := true } :=
      hs.lasts { Lasts.refl s with }
    exact hu.lasts (lasts_doCancels (hc.cancels hrun) h)
  | mustResume => exact hs.lasts { Lasts.refl s with }
  | takes => exact hs.lasts { Lasts.refl s with }
  | destroys _ hreset hst =>
    refine ⟨fun f hf h => ?_, hs.threw⟩
    have hno := not_closes_of_busy (ht.settled hreset hst f hf) .second
    cases hno.symm.trans (closes_of_serves h)

theorem Serving.change {a : Action Err} (hc : Core s) (hk : Tidy s) (ht : Told s) (hs : Serving s)
    (hg : Careful s a) (h : Change s a t) : Serving t := by
  cases h with
  | @answers w => cases w <;> exact hs.lasts { Lasts.refl s with }
  | making h => exact hs.making hc h
  | answering h => exact hs.answering hc h
  | ending h => exact hs.ending hc hk hg h
  | preparing h => exact hs.preparing hc h
  | performing h => exact hs.performing hc ht h

/-! ### The object of the first stage -/

/-- The scope has been destroyed without having been used. -/
def State.Dropped (s : State Err) : Prop :=
  s.first.built = false ∧ s.second.built = false ∧ s.stack = []

/-- Once there is an executor, the object of the first stage exists; or the stages have ended, or the
scope has been destroyed without having been used. -/
def State.Held (s : State Err) : Prop :=
  s.checker.hasExecutor = true → s.first.built = true ∨ Past s ∨ s.Dropped

theorem held_init : (State.init : State Err).Held := fun h => by cases h

theorem built_of_making {a : Action Err} (h : Making s a t) (hb : s.first.built = true) :
    t.first.built = true := by
  cases h with
  | constructs => rfl
  | makesBegins _ _ h => exact (within_begins h).built.trans hb
  | throwsLast => exact within_resumeParent.built.trans hb
  | ignored | signals | makes | makesCancels | throwsWaits | throwsAsks => exact hb

/-- Only the parent destroys the first stage. -/
theorem built_of_change {a : Action Err} (h : Change s a t) (hb : s.first.built = true) :
    t.first.built = true ∨ Performing s .destroy t := by
  cases h with
  | @answers w => exact .inl (by cases w <;> exact hb)
  | making h => exact .inl (built_of_making h hb)
  | answering h => exact .inl ((keeps_answering h).built.trans hb)
  | ending h => exact .inl ((keeps_ending h).built.trans hb)
  | preparing h =>
    left
    cases h with
    | ready => exact hb
    | cancelsEarly _ _ _ h => exact (within_doCancels h).built.trans hb
    | setsExecutor => exact hb
    | suspends _ _ _ h hcont => exact ((within_begins h).trans (within_next hcont)).built.trans hb
  | performing h =>
    cases h with
    | cancels _ _ h => exact .inl ((within_doCancels h).built.trans hb)
    | mustResume => exact .inl hb
    | takes => exact .inl hb
    | destroys hfb hreset hst => exact .inr (.destroys hfb hreset hst)

/-- Nothing happens to a scope that has been destroyed without having been used. -/
theorem dropped_change {a : Action Err} (hd : s.Dropped) (h : Change s a t) : t.Dropped := by
  obtain ⟨hb, hb', hst⟩ := hd
  have hstack : ∀ {f below}, s.stack = f :: below → False := by
    intro f below h
    cases hst.symm.trans h
  have hmay : ¬ s.maySignal = true := by
    simp [State.maySignal, State.isIn, hst, hb]
  have hnot : s.first.built = true → False := fun h => by cases hb.symm.trans h
  cases h with
  | @answers w => cases w <;> exact ⟨hb, hb', hst⟩
  | making h =>
    cases h with
    | ignored hm => exact absurd hm hmay
    | signals hm => exact absurd hm hmay
    | constructs h | makes h | makesBegins h | makesCancels h | throwsWaits h | throwsLast h
    | throwsAsks h => exact (hstack h).elim
  | answering h =>
    cases h with
    | beginReadies h | beginConfirms h | refusesDone h | refusesDoCancel h | refusesThrew h
    | refusesStarted h | confirmsDone h | confirmsSecond h | confirmsFirst h | confirmsThrew h
    | confirmsStarted h => exact (hstack h).elim
  | ending h =>
    cases h with
    | @resumes w _ _ hin =>
      have hin := (isIn_iff.1 hin).1
      cases w with
      | first => exact (hnot hin).elim
      | second => cases hb'.symm.trans hin
    | suspendReturns h | suspendThrows h | suspendFails h | mustResumes h | takesResult h
    | resultThrows h | destroyed h | destroyedThrown h => exact (hstack h).elim
  | preparing h => cases h <;> exact (hnot ‹_›).elim
  | performing h => cases h <;> exact (hnot ‹_›).elim

/-- The executor is set while the first stage exists. -/
theorem built_of_executor {a : Action Err} (h : Change s a t)
    (hno : s.checker.hasExecutor = false) (hex : t.checker.hasExecutor = true) :
    t.first.built = true := by
  have hsame : t.checker.hasExecutor = s.checker.hasExecutor → t.first.built = true := by
    intro heq
    cases (heq.symm.trans hex).symm.trans hno
  cases h with
  | @answers w => exact hsame (by cases w <;> rfl)
  | making h => exact hsame (keeps_making h).2.1
  | answering h => exact hsame (keeps_answering h).executor
  | ending h => exact hsame (keeps_ending h).executor
  | preparing h =>
    cases h with
    | ready _ _ hcheck => exact hsame (readyReturned_hasExecutor hcheck)
    | cancelsEarly _ _ _ h => exact hsame (within_doCancels h).executor
    | setsExecutor hb => exact hb
    | suspends _ _ hcheck => cases (aboutToSuspend_hasExecutor hcheck).1.symm.trans hno
  | performing h =>
    cases h with
    | cancels _ _ h => exact hsame (within_doCancels h).executor
    | mustResume => exact hsame rfl
    | takes _ hcheck => exact hsame (aboutToResume_hasExecutor hcheck)
    | destroys => exact hsame rfl

theorem held_change {a : Action Err} (hc : Core s) (ht : Told s) (hh : s.Held) (h : Change s a t) :
    t.Held := by
  intro hex
  by_cases hno : s.checker.hasExecutor = true
  · rcases hh hno with hb | hp | hd
    · rcases built_of_change h hb with hb' | hdes
      · exact .inl hb'
      · cases hdes with
        | destroys _ hreset hst =>
          rcases isTold_of_mayReset hreset with htold | hinit
          · exact .inr (.inl ((ht htold).change hc h))
          · exact .inr (.inr ⟨rfl, rfl, hst hinit⟩)
    · exact .inr (.inl (hp.change hc h))
    · exact .inr (.inr (dropped_change hd h))
  · exact .inl (built_of_executor h (by simpa using hno) hex)

/-! ### The runs -/

/-- What holds in the runs without an exception at the wrong moment. -/
structure Sound (s : State Err) : Prop where
  tidy : Tidy s
  starts : Starts s
  told : Told s
  serving : Serving s
  held : s.Held
  prepared : s.checker.hasExecutor = false → Unprepared s

theorem sound_init : Sound (State.init : State Err) where
  tidy := tidy_init
  starts := starts_init
  told := fun h => by cases h
  serving := serving_init
  held := held_init
  prepared := fun _ => unprepared_init

theorem Sound.change {a : Action Err} (hc : Core s) (hct : Core t) (hs : Sound s)
    (hg : Careful s a) (h : Change s a t) : Sound t := by
  have htidy := hs.tidy.change hc (orderly_of_careful hg) h
  refine ⟨htidy, hs.starts.change hc hs.tidy.kept h, hs.told.change hc htidy h,
    hs.serving.change hc hs.tidy hs.told hg h, held_change hc hs.told hs.held h, fun hex => ?_⟩
  have hno : ¬ t.checker.hasExecutor = true := by simp [hex]
  have hex' : s.checker.hasExecutor = false :=
    ((executor_of_change h).resolve_right hno).symm.trans hex
  refine (hs.prepared hex').change hc hex' hg ?_ h
  rintro rfl
  rcases parent_of_change h with ⟨-, hne⟩ | hp
  · exact hne rfl
  · exact hno (hct.executor (.inr hp))

theorem sound_of_reach (h : Reach step Careful (.init : State Err) s) : Sound s :=
  h.invariant_of (fun _ => core_of_reach) sound_init fun _ _ _ hc hs hg hstep =>
    hs.change hc (hc.change (change_of_step hc hstep)) hg (change_of_step hc hstep)

end Corral.With
