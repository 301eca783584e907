import Corral.With.Unfinished

/-!
# A `with()` scope finishes once

The scope finishes at most once, when no stage is alive (`Tidy`).  While it has not finished, and the
parent is suspended, a stage is alive or being closed (`Busy`), and it has been begun or is about to
be.

* `IdleFirst`, `IdleSecond`: the stages that wait to be begun;
* `finishes_once`: the result.
-/

namespace Corral.With

open ActionMachine AwaiterStateChecker

variable {Err : Type*} {s t u : State Err}

/-! ### Stages that wait to be begun -/

theorem life_begins {w : Which} {both ret : Bool} (hc : Core s) (h : Begins s w both u ret) :
    ((u.get w).life = .idle → .beginEarlyCancel w both ∈ u.stack) ∧
      (u.get w.other).life = (s.get w.other).life := by
  cases h with
  | done hd =>
    refine ⟨fun hidle => ?_, rfl⟩
    have hno : (s.get w).life.alive = false := by
      cases w with
      | first => exact alive_of_done hc.first hd
      | second => exact alive_of_done hc.second hd
    rw [hidle] at hno
    cases hno
  | early => exact ⟨fun _ => List.mem_cons_self, by cases w <;> rfl⟩
  | readies _ _ hr =>
    obtain ⟨h₁, h₂⟩ := life_readies hr
    exact ⟨fun h => absurd h h₁, h₂⟩

/-- A call that is in progress goes on with the second stage. -/
theorem opens_joins (h : Joins s .first true u false) : ∃ f ∈ u.stack, f.opens = true := by
  cases h with
  | asks => exact ⟨_, List.mem_cons_self, rfl⟩

theorem opens_settles (h : Settles s .first true u false) : ∃ f ∈ u.stack, f.opens = true := by
  cases h with
  | destroys hw => cases hw
  | takes hw => cases hw
  | joins _ h => exact opens_joins h

theorem opens_ends (h : Ends s .first true u false) : ∃ f ∈ u.stack, f.opens = true := by
  cases h with
  | asks => exact ⟨_, List.mem_cons_self, rfl⟩
  | settles h => exact opens_settles h

theorem opens_readies (h : Readies s .first true u false) : ∃ f ∈ u.stack, f.opens = true := by
  cases h with
  | ready _ he => exact opens_ends he
  | suspends => exact ⟨_, List.mem_cons_self, rfl⟩

theorem opens_begins (h : Begins s .first true u false) : ∃ f ∈ u.stack, f.opens = true := by
  cases h with
  | early => exact ⟨_, List.mem_cons_self, rfl⟩
  | readies _ _ hr => exact opens_readies hr

/-- The second stage waits to be begun only if a call is in progress that goes on with it. -/
def IdleSecond (s : State Err) : Prop :=
  s.parent = true → s.finishes = [] → s.second.life = .idle → ∃ f ∈ s.stack, f.opens = true

theorem idleSecond_of_life (h : s.second.life ≠ .idle) : IdleSecond s := fun _ _ h' => absurd h' h

theorem IdleSecond.pop {f : Frame Err} {below : List (Frame Err)} (hi : IdleSecond s)
    (hst : s.stack = f :: below) (hf : f.opens = false) : IdleSecond { s with stack := below } := by
  intro hp hfin hl
  obtain ⟨g, hg, hop⟩ := hi hp hfin hl
  rcases List.mem_cons.1 (hst ▸ hg) with rfl | hg
  · cases hf.symm.trans hop
  · exact ⟨g, hg, hop⟩

theorem IdleSecond.within (hi : IdleSecond s) (hw : Within s u)
    (hl : u.second.life = s.second.life) : IdleSecond u := by
  intro hp hfin hl'
  rw [hw.parent] at hp
  have hfin' : s.finishes = [] := List.prefix_nil.1 (by rw [← hfin]; exact hw.finishes)
  obtain ⟨f, hf, hop⟩ := hi hp hfin' (hl.symm.trans hl')
  exact ⟨f, hw.stack.subset hf, hop⟩

theorem idleSecond_begins {both ret : Bool} (hc : Core s) (h : Begins s .second both u ret) :
    IdleSecond u := by
  intro _ _ hl
  exact ⟨_, (life_begins hc h).1 hl, rfl⟩

/-- The second stage is begun now, or the call that will do it is in progress, or nothing is to be
done. -/
theorem IdleSecond.next {both ret : Bool} (hc : Core s)
    (h₁ : both = true → ret = false → ∃ f ∈ s.stack, f.opens = true)
    (h₂ : both = false → IdleSecond s) (hcont : Continues (State.next both) s ret t) :
    IdleSecond t := by
  rcases next_cases hcont with ⟨rfl, hret⟩ | ⟨-, -, ret', h⟩
  · cases both with
    | false => exact h₂ rfl
    | true =>
      refine fun _ _ _ => h₁ rfl ?_
      by_contra hr
      cases hret (by simpa using hr)
  · exact idleSecond_begins hc h

theorem idleSecond_next {both ret : Bool} (hc : Core s) (hl : s.second.life ≠ .idle)
    (hcont : Continues (State.next both) s ret t) : IdleSecond t := by
  rcases next_cases hcont with ⟨rfl, -⟩ | ⟨-, -, ret', h⟩
  · exact idleSecond_of_life hl
  · exact idleSecond_begins hc h

/-- The scope has finished if there is a parent. -/
theorem idleSecond_resumeParent : IdleSecond s.resumeParent := by
  unfold State.resumeParent
  split_ifs with hp
  · exact fun _ h => by simp at h
  · exact fun h => absurd h hp

theorem IdleSecond.making {a : Action Err} (hc : Core s) (hs : Signals s) (hi : IdleSecond s)
    (h : Making s a t) : IdleSecond t := by
  cases h with
  | constructs hst => exact hi.pop hst rfl
  | ignored => exact hi
  | signals hm =>
    exact idleSecond_of_life (by simp [State.enter, (hc.unsignalled (unsignalled_of_maySignal hm)).1])
  | makes hst =>
    have hp := hs.idles _ (mem_top hst) rfl
    exact fun h => absurd (hp.symm.trans h) (by simp)
  | makesBegins hst _ h => exact idleSecond_begins (hc.made hst) h
  | makesCancels => exact fun _ _ _ => ⟨_, List.mem_cons_self, rfl⟩
  | throwsWaits hst => exact idleSecond_of_life (by simp [(hc.thenFn _ (mem_top hst) rfl).1])
  | throwsLast => exact idleSecond_resumeParent
  | throwsAsks => exact fun _ _ _ => ⟨_, List.mem_cons_self, rfl⟩

theorem IdleSecond.beginReadies {w : Which} {both ret : Bool} {below : List (Frame Err)}
    {v : State Err} (hc : Core s) (hi : IdleSecond s) (hst : s.stack = .beginEarlyCancel w both :: below)
    (hr : Readies { s with stack := below } w both u ret)
    (hcont : Continues (State.next both) u ret v) : IdleSecond v := by
  have hm := hc.mayBegin hst
  have hcu := (hc.pop hst fun _ => rfl).readies hm hr
  refine IdleSecond.next hcu (fun hboth hret => ?_) (fun hboth => ?_) hcont
  · obtain rfl := hm.which hboth
    subst hboth hret
    exact opens_readies hr
  · cases w with
    | first => exact (hi.pop hst hboth).within (within_readies hr) (life_readies hr).2
    | second => exact idleSecond_of_life (life_readies hr).1

theorem IdleSecond.beginConfirms {w : Which} {both ret : Bool} {below : List (Frame Err)}
    {v : State Err} (hc : Core s) (hi : IdleSecond s) (hst : s.stack = .beginEarlyCancel w both :: below)
    (hin : s.isIn w .idle = true)
    (he : Ends ({ s with stack := below }.refuse w true) w both u ret)
    (hcont : Continues (State.next both) u ret v) : IdleSecond v := by
  refine IdleSecond.next (hc.refusedEnds hst hin he) (fun hboth hret => ?_) (fun hboth => ?_) hcont
  · obtain rfl := (hc.mayBegin hst).which hboth
    subst hboth hret
    exact opens_ends he
  · cases w with
    | first =>
      have hu : IdleSecond (({ s with stack := below } : State Err).refuse .first true) :=
        hi.pop hst hboth
      exact hu.within (within_ends he) (life_ends he).2.2
    | second =>
      have hl : u.second.life = .ended := (life_ends he).2.1
      exact idleSecond_of_life (by simp [hl])

theorem IdleSecond.answering {a : Action Err} (hc : Core s) (hs : Signals s) (hi : IdleSecond s)
    (h : Answering s a t) : IdleSecond t := by
  cases h with
  | beginReadies hst hr hcont => exact hi.beginReadies hc hst hr hcont
  | beginConfirms hst hin he hcont => exact hi.beginConfirms hc hst hin he hcont
  | @refusesDone w _ both _ _ hst hcont =>
    refine IdleSecond.next (hc.pop hst fun _ => rfl) (by simp) (fun hboth => hi.pop hst ?_) hcont
    cases w
    · rfl
    · exact hboth
  | @refusesDoCancel w _ caller _ hst e hor =>
    refine (hi.pop hst ?_).within within_cancelReturned rfl
    rcases hor with rfl | ⟨_, rfl⟩ <;> cases w <;> rfl
  | @refusesThrew w early _ hst =>
    have hprop := hc.proper _ (mem_top hst)
    obtain rfl : w = .first := by simpa [Frame.proper] using hprop
    have hnew : s.second.life = .new := hc.holds _ (mem_top hst)
    exact idleSecond_of_life (by simp [hnew])
  | @refusesStarted w early executor _ _ hst hcont =>
    refine IdleSecond.next (hc.pop hst fun _ => rfl) (by simp) (fun hex => ?_) hcont
    have hp := hs.idles _ (mem_top hst) (by simp [Frame.idles, hex])
    exact fun h => absurd (hp.symm.trans h) (by simp)
  | confirmsDone hst hin hcont =>
    rcases next_cases hcont with ⟨rfl, -⟩ | ⟨-, -, ret', h⟩
    · exact idleSecond_resumeParent
    · exact idleSecond_begins (hc.confirmed hst hin).resumeParent h
  | confirmsSecond _ _ h =>
    have hl : t.second.life = .ended := life_cancelsFirst h .second
    exact idleSecond_of_life (by simp [hl])
  | @confirmsFirst _ _ _ below hst =>
    have hu : IdleSecond (({ s with stack := below } : State Err).confirm .first) := hi.pop hst rfl
    exact hu.within within_cancelReturned rfl
  | confirmsThrew => exact idleSecond_resumeParent
  | confirmsStarted _ _ he =>
    have hl : t.second.life = .ended := (life_ends he).2.1
    exact idleSecond_of_life (by simp [hl])

theorem IdleSecond.mustResumes {w : Which} {must both ret : Bool} {below : List (Frame Err)}
    {v : State Err} (hc : Core s) (hi : IdleSecond s) (hst : s.stack = .mustResume w both :: below)
    (hs : Settles ({ s with stack := below }.refuse w ((s.get w).mustNotResume || !must)) w both u ret)
    (hcont : Continues (State.next both) u ret v) : IdleSecond v := by
  obtain ⟨hcr, hend, hm⟩ := hc.mustResumed hst ((s.get w).mustNotResume || !must)
  have hcu := hcr.settles hend hm hs
  cases w with
  | first =>
    refine IdleSecond.next hcu (fun hboth hret => ?_) (fun hboth => ?_) hcont
    · subst hboth hret
      exact opens_settles hs
    · have hu : IdleSecond (({ s with stack := below } : State Err).refuse .first
          (s.first.mustNotResume || !must)) := hi.pop hst hboth
      exact hu.within (within_settles hs) (life_settles .second hs).1
  | second =>
    have hl : u.second.life = .ended := (life_settles .second hs).1.trans hend
    exact idleSecond_next hcu (by simp [hl]) hcont

theorem IdleSecond.ending {a : Action Err} (hc : Core s) (hk : Tidy s) (hi : IdleSecond s)
    (hg : Orderly s a) (h : Ending s a t) : IdleSecond t := by
  cases h with
  | @suspendReturns w _ _ _ hst hcont =>
    refine IdleSecond.next (hc.pop hst fun _ => rfl) (by simp) (fun hboth => hi.pop hst ?_) hcont
    cases w
    · exact hboth
    · rfl
  | @suspendThrows w both _ below err u _ hst hin hsec he hcont =>
    obtain ⟨hcs, hal, hm⟩ := hc.threw err hst hin
    have hcu := hcs.endsAlive hal hm he
    refine idleSecond_next hcu ?_ hcont
    obtain ⟨-, hend, hother⟩ := life_ends he
    cases w with
    | first =>
      -- There is no second stage, so that none waits.
      rw [show u.second.life = s.second.life from hother]
      intro hidle
      have hno := hk.not_alive_of_absent hc (isIn_iff.1 hin).1 hsec
      rw [hidle] at hno
      cases hno
    | second =>
      rw [show u.second.life = _ from hend]
      simp
  | @suspendFails w _ _ _ hst _ hsec =>
    cases w with
    | first => cases (hg (by simp [State.suspendsFirst, hst])).symm.trans hsec
    | second => exact idleSecond_of_life (by simp [State.enter, State.leave, State.fail])
  | @resumes w _ _ _ he =>
    cases w with
    | first => exact hi.within (within_ends he) (life_ends he).2.2
    | second =>
      have hl : t.second.life = .ended := (life_ends he).2.1
      exact idleSecond_of_life (by simp [hl])
  | mustResumes hst _ hs hcont => exact hi.mustResumes hc hst hs hcont
  | takesResult hst =>
    have hl : s.second.life = .ended := hc.holds _ (mem_top hst)
    exact idleSecond_of_life (by simp [State.destroySecond, State.enter, State.leave, hl])
  | resultThrows hst =>
    have hl : s.second.life = .ended := hc.holds _ (mem_top hst)
    exact idleSecond_of_life (by simp [State.destroySecond, State.enter, State.leave, hl])
  | @destroyed _ _ _ _ u _ hst _ hj hcont =>
    have hend : s.second.life = .ended := hc.holds _ (mem_top hst)
    obtain rfl := hc.both_destroySecond hst
    have hl : u.second.life = .ended := (life_joins .second hj).1.trans hend
    exact idleSecond_next (hc.joinsDestroyed hst hj) (by simp [hl]) hcont
  | @destroyedThrown _ w _ _ _ u _ hst _ he hcont =>
    cases w with
    | first => exact absurd (hc.life_of_destroyThrown hst).1 hk.notThrew
    | second =>
      have hl : u.second.life = .ended := (life_ends he).2.1
      exact idleSecond_next (hc.endsDestroyed hst he) (by simp [hl]) hcont

theorem IdleSecond.suspends {c : Checker} {ret : Bool} {v : State Err} (hc : Core s) (hk : Tidy s)
    (hbuilt : s.first.built = true) (hst : s.stack = []) (hcheck : s.checker.aboutToSuspend = some c)
    (hbeg : Begins { s with checker := c, parent := true } .first s.stage.isSecond u ret)
    (hcont : Continues (State.next s.stage.isSecond) u ret v) : IdleSecond v := by
  have hcu := hc.suspends hbuilt hcheck
  have hcu' := hcu.begins (hc.mayBegin_suspends hst) hbeg
  by_cases hidle : s.second.life = .idle
  · -- The second stage has been made, and is begun together with the first one.
    have hin : s.stage.isSecond = true := by
      by_contra h
      have hno := hk.not_alive_of_absent hc hbuilt (by simpa using h)
      rw [hidle] at hno
      cases hno
    rw [hin] at hbeg hcont
    refine IdleSecond.next hcu' (fun _ hret => ?_) (by simp) hcont
    subst hret
    exact opens_begins hbeg
  · refine idleSecond_next hcu' ?_ hcont
    rw [show u.second.life = s.second.life from (life_begins hcu hbeg).2]
    exact hidle

theorem IdleSecond.change {a : Action Err} (hc : Core s) (hk : Tidy s) (hs : Signals s)
    (hi : IdleSecond s) (hg : Orderly s a) (h : Change s a t) : IdleSecond t := by
  cases h with
  | @answers w => cases w <;> exact hi
  | making h => exact hi.making hc hs h
  | answering h => exact hi.answering hc hs h
  | ending h => exact hi.ending hc hk hg h
  | preparing h =>
    cases h with
    | ready => exact hi
    | cancelsEarly _ _ _ h =>
      have hu : IdleSecond { s with cancelling := true } := hi
      exact hu.within (within_doCancels h) (life_doCancels h .second)
    | setsExecutor => exact hi
    | suspends hbuilt hst hcheck hbeg hcont => exact IdleSecond.suspends hc hk hbuilt hst hcheck hbeg hcont
  | performing h =>
    cases h with
    | cancels _ _ h =>
      have hu : IdleSecond { s with checker := s.checker.set .cancelling, cancelling := true } := hi
      exact hu.within (within_doCancels h) (life_doCancels h .second)
    | mustResume => exact hi
    | takes => exact hi
    | destroys => exact hi

/-- The first stage waits to be begun only if it is being asked whether it wants to be. -/
def IdleFirst (s : State Err) : Prop :=
  s.parent = true → s.first.life = .idle → ∃ both, .beginEarlyCancel .first both ∈ s.stack

theorem idleFirst_of_life (h : s.first.life ≠ .idle) : IdleFirst s := fun _ h' => absurd h' h

/-- No call has returned that asks the first stage whether it wants to be begun. -/
theorem IdleFirst.keeps (hi : IdleFirst s) (hp : u.parent = s.parent)
    (hst : ∀ both, .beginEarlyCancel .first both ∈ s.stack → .beginEarlyCancel .first both ∈ u.stack)
    (hl : u.first.life = .idle → s.first.life = .idle) : IdleFirst u := by
  intro hp' hl'
  obtain ⟨both, hmem⟩ := hi (hp.symm.trans hp') (hl hl')
  exact ⟨both, hst both hmem⟩

theorem IdleFirst.within (hi : IdleFirst s) (hw : Within s u)
    (hl : u.first.life = .idle → s.first.life = .idle) : IdleFirst u :=
  hi.keeps hw.parent (fun _ h => hw.stack.subset h) hl

theorem mem_of_pop {f g : Frame Err} {below : List (Frame Err)} (hst : s.stack = f :: below)
    (hne : g ≠ f) (hg : g ∈ s.stack) : g ∈ below := by
  rcases List.mem_cons.1 (hst ▸ hg) with h | h
  · exact absurd h hne
  · exact h

theorem IdleFirst.pop {f : Frame Err} {below : List (Frame Err)} (hi : IdleFirst s)
    (hst : s.stack = f :: below) (hf : ∀ both, .beginEarlyCancel .first both ≠ f) :
    IdleFirst { s with stack := below } :=
  hi.keeps rfl (fun both h => mem_of_pop hst (hf both) h) id

theorem life_next {both ret : Bool} (hcont : Continues (State.next both) s ret t) :
    t.first.life = s.first.life := by
  rcases next_cases hcont with ⟨rfl, -⟩ | ⟨-, -, ret', h⟩
  · rfl
  · cases h with
    | done => rfl
    | early => rfl
    | readies _ _ hr => exact (life_readies hr).2

theorem life_resumeParent : s.resumeParent.first.life = s.first.life := by
  unfold State.resumeParent
  split_ifs <;> rfl

theorem idle_ends {w : Which} {both ret : Bool} (h : Ends s w both u ret)
    (hl : u.first.life = .idle) : s.first.life = .idle := by
  obtain ⟨-, hend, hother⟩ := life_ends h
  cases w with
  | first => cases hl.symm.trans hend
  | second => exact hother.symm.trans hl

theorem idle_readies {w : Which} {both ret : Bool} (h : Readies s w both u ret)
    (hl : u.first.life = .idle) : w = .second ∧ s.first.life = .idle := by
  obtain ⟨hno, hother⟩ := life_readies h
  cases w with
  | first => exact absurd hl hno
  | second => exact ⟨rfl, hother.symm.trans hl⟩

theorem IdleFirst.making {a : Action Err} (hc : Core s) (hi : IdleFirst s) (h : Making s a t) :
    IdleFirst t := by
  cases h with
  | constructs hst =>
    exact fun hp => absurd (hc.construct _ (mem_top hst) rfl) (hc.parented hp).1
  | ignored => exact hi
  | signals => exact hi.keeps rfl (fun _ => List.mem_cons_of_mem _) id
  | makes hst => exact hi.pop hst (by simp)
  | @makesBegins below _ _ hst _ h =>
    have hu : IdleFirst ({ s with stack := below }.made) := hi.pop hst (by simp)
    refine hu.within (within_begins h) fun hl => ?_
    rwa [show t.first.life = s.first.life from (life_begins (hc.made hst) h).2] at hl
  | makesCancels hst =>
    exact hi.keeps rfl (fun _ h => List.mem_cons_of_mem _ (mem_of_pop hst (by simp) h)) id
  | throwsWaits hst => exact hi.pop hst (by simp)
  | @throwsLast _ below err hst =>
    have hu : IdleFirst { s with stack := below, stage := .exception err, thrown := some err } :=
      hi.pop hst (by simp)
    exact hu.within within_resumeParent fun hl => life_resumeParent ▸ hl
  | throwsAsks hst =>
    exact hi.keeps rfl (fun _ h => List.mem_cons_of_mem _ (mem_of_pop hst (by simp) h)) id

/-- A stage that has been asked whether it wants to be begun is not asked any more. -/
theorem IdleFirst.beginReturns {w : Which} {both ret : Bool} {below : List (Frame Err)}
    {v : State Err} (hi : IdleFirst s) (hst : s.stack = .beginEarlyCancel w both :: below)
    (hkeep : Keeps s u) (hsub : below <:+ u.stack)
    (hl : u.first.life = .idle → w = .second ∧ s.first.life = .idle)
    (hcont : Continues (State.next both) u ret v) : IdleFirst v := by
  have hu : IdleFirst u := by
    cases w with
    | first =>
      refine idleFirst_of_life fun h => ?_
      cases (hl h).1
    | second =>
      exact hi.keeps hkeep.parent (fun _ h => hsub.subset (mem_of_pop hst (by simp) h))
        fun h => (hl h).2
  exact hu.within (within_next hcont) fun h => life_next hcont ▸ h

theorem IdleFirst.popNext {f : Frame Err} {both : Bool} {below : List (Frame Err)} (hi : IdleFirst s)
    (hst : s.stack = f :: below) (hf : ∀ both, .beginEarlyCancel .first both ≠ f)
    (hcont : Continues (State.next both) { s with stack := below } true t) : IdleFirst t :=
  (hi.pop hst hf).within (within_next hcont) fun h => life_next hcont ▸ h

theorem IdleFirst.answering {a : Action Err} (hi : IdleFirst s) (h : Answering s a t) :
    IdleFirst t := by
  cases h with
  | beginReadies hst hr hcont =>
    have hw := within_readies hr
    have hl := fun h => idle_readies hr h
    exact hi.beginReturns hst (keeps_pop.trans hw.toKeeps) hw.stack hl hcont
  | @beginConfirms w _ _ _ _ _ hst hin he hcont =>
    have hw := within_ends he
    have hsub := hw.stack
    rw [stack_refuse] at hsub
    refine hi.beginReturns hst ((keeps_pop.trans keeps_refuse).trans hw.toKeeps) hsub (fun hl => ?_)
      hcont
    obtain ⟨-, hend, hother⟩ := life_ends he
    cases w with
    | first => cases hl.symm.trans hend
    | second => exact ⟨rfl, hother.symm.trans hl⟩
  | refusesDone hst hcont => exact hi.popNext hst (by simp) hcont
  | refusesDoCancel hst => exact (hi.pop hst (by simp)).within within_cancelReturned id
  | refusesThrew hst => exact hi.pop hst (by simp)
  | refusesStarted hst hcont => exact hi.popNext hst (by simp) hcont
  | @confirmsDone w _ _ below _ hst _ hcont =>
    have hl := (life_next hcont).trans life_resumeParent
    cases w with
    | first => exact idleFirst_of_life (by rw [hl]; simp [State.confirm, State.finish])
    | second =>
      have hu : IdleFirst (({ s with stack := below } : State Err).confirm .second) :=
        hi.pop hst (by simp)
      exact hu.within (within_resumeParent.trans (within_next hcont)) fun h => hl ▸ h
  | @confirmsSecond _ _ below _ hst _ h =>
    have hu : IdleFirst (({ s with stack := below } : State Err).confirm .second) :=
      hi.pop hst (by simp)
    refine hu.within (within_cancelsFirst h) fun hl => ?_
    rwa [show t.first.life = s.first.life from life_cancelsFirst h .first] at hl
  | confirmsFirst =>
    exact idleFirst_of_life (by simp [State.cancelReturned, State.confirm, State.finish])
  | confirmsThrew =>
    exact idleFirst_of_life (by rw [life_resumeParent]; simp [State.confirm, State.finish])
  | @confirmsStarted _ _ _ below _ hst _ he =>
    have hu : IdleFirst (({ s with stack := below } : State Err).refuse .second true) :=
      hi.pop hst (by simp)
    exact hu.within (within_ends he) (idle_ends he)

theorem IdleFirst.ending {a : Action Err} (hi : IdleFirst s) (h : Ending s a t) : IdleFirst t := by
  cases h with
  | suspendReturns hst hcont => exact hi.popNext hst (by simp) hcont
  | @suspendThrows _ _ _ below err _ _ hst _ _ he hcont =>
    have hu : IdleFirst (({ s with stack := below } : State Err).switchTo (.exception err)) :=
      hi.pop hst (by simp)
    exact hu.within ((within_ends he).trans (within_next hcont))
      fun h => idle_ends he (life_next hcont ▸ h)
  | @suspendFails w _ _ _ hst =>
    have hpop := hi.pop hst (by simp)
    cases w with
    | first => exact idleFirst_of_life (by simp [State.enter, State.leave, State.fail])
    | second => exact hpop.keeps rfl (fun _ => List.mem_cons_of_mem _) id
  | resumes _ he => exact hi.within (within_ends he) (idle_ends he)
  | @mustResumes w must _ _ below _ _ hst _ hs hcont =>
    have hu : IdleFirst (({ s with stack := below } : State Err).refuse w
        ((s.get w).mustNotResume || !must)) := by
      have hpop := hi.pop hst (by simp)
      cases w <;> exact hpop
    refine hu.within ((within_settles hs).trans (within_next hcont)) fun h => ?_
    rw [life_next hcont] at h
    exact (life_settles .first hs).1.symm.trans h
  | takesResult hst => exact (hi.pop hst (by simp)).keeps rfl (fun _ => List.mem_cons_of_mem _) id
  | resultThrows hst => exact (hi.pop hst (by simp)).keeps rfl (fun _ => List.mem_cons_of_mem _) id
  | @destroyed stage _ _ below _ _ hst _ hj hcont =>
    have hu : IdleFirst { s with stack := below, stage := stage } := hi.pop hst (by simp)
    refine hu.within ((within_joins hj).trans (within_next hcont)) fun h => ?_
    rw [life_next hcont] at h
    exact (life_joins .first hj).1.symm.trans h
  | @destroyedThrown err _ _ _ below _ _ hst _ he hcont =>
    have hu : IdleFirst { s with stack := below, stage := .exception err } := hi.pop hst (by simp)
    exact hu.within ((within_ends he).trans (within_next hcont))
      fun h => idle_ends he (life_next hcont ▸ h)

theorem IdleFirst.change {a : Action Err} (hc : Core s) (hi : IdleFirst s) (h : Change s a t) :
    IdleFirst t := by
  cases h with
  | @answers w => cases w <;> exact hi
  | making h => exact hi.making hc h
  | answering h => exact hi.answering h
  | ending h => exact hi.ending h
  | preparing h =>
    cases h with
    | ready => exact hi
    | cancelsEarly _ _ _ h =>
      have hu : IdleFirst { s with cancelling := true } := hi
      exact hu.within (within_doCancels h) fun hl => (life_doCancels h .first).symm.trans hl
    | setsExecutor => exact hi
    | suspends hbuilt hst hcheck hbeg hcont =>
      intro _ hl
      refine ⟨_, (within_next hcont).stack.subset ((life_begins (hc.suspends hbuilt hcheck) hbeg).1 ?_)⟩
      exact (life_next hcont).symm.trans hl
  | performing h =>
    cases h with
    | cancels _ _ h =>
      have hu : IdleFirst { s with checker := s.checker.set .cancelling, cancelling := true } := hi
      exact hu.within (within_doCancels h) fun hl => (life_doCancels h .first).symm.trans hl
    | mustResume => exact hi
    | takes => exact hi
    | destroys => exact hi

/-! ### The result -/

/-- What holds in the runs in which the first stage does not end or signal readiness at the wrong
moment. -/
structure Alive (s : State Err) : Prop where
  tidy : Tidy s
  signals : Signals s
  early : s.parent = false → Early s
  asked : Asked s
  busy : Busy s
  idleFirst : IdleFirst s
  idleSecond : IdleSecond s

theorem alive_init : Alive (State.init : State Err) where
  tidy := tidy_init
  signals := signals_init
  early := fun _ => early_init
  asked := fun _ _ => rfl
  busy := busy_init
  idleFirst := fun h => by cases h
  idleSecond := fun h => by cases h

theorem Alive.change {a : Action Err} (hc : Core s) (hv : Alive s) (hg : Punctual s a)
    (h : Change s a t) : Alive t where
  tidy := hv.tidy.change hc hg.1 h
  signals := hv.signals.change hc h
  early := fun hp => by
    rcases parent_of_change h with ⟨hp', hne⟩ | hp'
    · exact (hv.early (hp'.symm.trans hp)).change hc hv.tidy (hp'.symm.trans hp) hne hg h
    · cases hp'.symm.trans hp
  asked := hv.asked.change hv.tidy h
  busy := hv.busy.change hc hv.tidy hv.early hv.asked h
  idleFirst := hv.idleFirst.change hc h
  idleSecond := hv.idleSecond.change hc hv.tidy hv.signals hg.1 h

theorem alive_of_reach (h : Reach step Punctual (.init : State Err) s) : Alive s :=
  h.invariant_of (fun _ => core_of_reach) alive_init
    fun _ _ _ hc hv hg hs => hv.change hc hg (change_of_step hc hs)

/-- The scope finishes at most once, when each stage has ended or the second one has never been made;
and while it has not finished, and the parent waits for it, a stage is running. -/
theorem finishes_once (h : Reach step Punctual (.init : State Err) s) :
    s.finishes.length ≤ 1 ∧
    (s.finishes ≠ [] → s.first.life = .ended ∧ (s.second.life = .new ∨ s.second.life = .ended)) ∧
    (s.checker.state.suspended = true → s.stack = [] → s.finishes = [] →
      s.first.life = .running ∨ s.second.life = .running) := by
  have hc := core_of_reach h
  have hv := alive_of_reach h
  refine ⟨?_, fun hfin => ?_, fun hsus hst hfin => ?_⟩
  · by_cases hfin : s.finishes = []
    · simp [hfin]
    · exact (hv.tidy.finished hfin).once.le
  · have ho := hv.tidy.finished hfin
    refine ⟨ho.first, ?_⟩
    cases hl : s.second.life with
    | new => exact .inl rfl
    | ended => exact .inr rfl
    | threw => exact absurd hl (ho.toPast.not_threw (w := .second) hc)
    | idle | running => exact (ho.toPast.not_alive (w := .second) (by rw [get_second, hl]; rfl)).elim
  · have hp : s.parent = true := by
      by_contra hp
      cases (hc.waiting (by simpa using hp)).symm.trans hsus
    have hno : ∀ f, f ∉ s.stack := by simp [hst]
    rcases hv.busy.alive hp hfin with hal | hal | ⟨f, hf, -⟩
    · refine .inl ?_
      cases hl : s.first.life with
      | running => rfl
      | idle =>
        obtain ⟨both, hmem⟩ := hv.idleFirst hp hl
        exact absurd hmem (hno _)
      | new | threw | ended =>
        rw [hl] at hal
        cases hal
    · refine .inr ?_
      cases hl : s.second.life with
      | running => rfl
      | idle =>
        obtain ⟨f, hf, -⟩ := hv.idleSecond hp hfin hl
        exact absurd hf (hno f)
      | new | threw | ended =>
        rw [hl] at hal
        cases hal
    · exact absurd hf (hno f)

/-- Both stages run, the second one completes, and the first one is cancelled. -/
def completes : List (Action ℕ) :=
  [.firstReturns, .awaitReady, .awaitSetExecutor, .awaitSuspend, .suspendReturns, .started,
    .thenReturns, .suspendReturns, .resumes .second, .resultReturns, .secondDestroyed,
    .cancelReturns true]

theorem finishes_once_completes : ∃ s, exec step (.init : State ℕ) completes = .ok s ∧
    s.finishes = [.resumed] ∧ s.first.life = .ended ∧ s.second.life = .ended := by
  have hm : Meets step Punctual (.init : State ℕ) completes := by decide
  have hrun : ∃ s, exec step (.init : State ℕ) completes = .ok s ∧ s.finishes = [.resumed] ∧
      s.second.life ≠ .new := ⟨_, rfl, rfl, by decide⟩
  obtain ⟨s, he, hfin, hlife⟩ := hrun
  obtain ⟨h₁, h₂⟩ := (finishes_once (reach_of_exec hm he)).2.1 (by simp [hfin])
  exact ⟨s, he, hfin, h₁, h₂.resolve_left hlife⟩

/-- The first stage signals readiness in the constructor, so that both stages are begun in
`await_suspend()`.  While the first one is being suspended the parent is cancelled and the first
stage confirms, so the scope takes itself to be cancelled; then the second stage is begun, and
confirms its cancellation too. -/
def finishesTwice : List (Action ℕ) :=
  [.started, .thenReturns, .firstReturns, .awaitReady, .awaitSetExecutor, .awaitSuspend,
    .awaitCancel, .cancelReturns true, .suspendReturns, .earlyCancelReturns true, .secondDestroyed]

theorem not_finishes_once : ∃ s, exec step (.init : State ℕ) finishesTwice = .ok s ∧
    s.finishes = [.cancelled, .resumed] := ⟨_, rfl, rfl⟩

-- The destructor of the second stage lets the first one resume its handle.
example : ∃ s : State ℕ, exec step .init [.firstReturns, .awaitReady, .awaitSetExecutor,
    .awaitSuspend, .suspendReturns, .started, .thenReturns, .suspendReturns, .resumes .second,
    .resultReturns, .resumes .first, .secondDestroyed] = .ok s ∧ s.finishes = [.resumed, .resumed] :=
  ⟨_, rfl, rfl⟩

end Corral.With
