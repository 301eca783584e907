import Corral.With.Progress

/-!
# What is left to do in a `with()` scope

While the scope has not finished, and the parent is suspended, a stage is alive or being closed.

* `Requests`: when the first stage is asked to cancel itself;
* `Busy`: what is left to do.
-/

namespace Corral.With

open ActionMachine AwaiterStateChecker

variable {Err : Type*} {s t u : State Err}

/-! ### Requests -/

/-- `doCancel()` has asked the second stage. -/
def Frame.asksSecond : Frame Err → Bool
  | .cancelStage _ _ (.doCancelSecond _) => true
  | _ => false

theorem isDoCancel_of_asksSecond {f : Frame Err} (h : f.asksSecond = true) : f.isDoCancel = true := by
  cases f with
  | cancelStage w early caller => cases caller <;> first | rfl | cases h
  | _ => cases h

theorem isDoCancel_of_isEarly {f : Frame Err} (h : f.isEarly = true) : f.isDoCancel = true := by
  cases f with
  | cancelStage w early caller => cases caller <;> first | rfl | cases h
  | _ => cases h

theorem asks_of_asksSecond {f : Frame Err} (hc : Core s) (hf : f ∈ s.stack)
    (h : f.asksSecond = true) : f.asks .second = true := by
  cases f with
  | cancelStage w early caller =>
    cases caller with
    | doCancelSecond e => exact hc.proper _ hf
    | _ => cases h
  | _ => cases h

/-- The first stage is asked before the second one has ended only by `doCancel()`, and not after the
second one has been asked. -/
structure Requests (s : State Err) : Prop where
  requested : s.cancelling = false → s.first.cancelling = true →
    s.second.life.alive = false ∧ ∀ f ∈ s.stack, f.isThen = false
  asks : ∀ f ∈ s.stack, f.asksSecond = true → s.second.life.alive = true →
    s.first.cancelling = false

/-- A stage is alive or about to be made, or is being closed. -/
def State.unfinished (s : State Err) : Prop :=
  s.first.life.alive = true ∨ s.second.life.alive = true ∨ ∃ f ∈ s.stack, f.busy = true

/-- While the parent is suspended, something is left to do. -/
structure Busy (s : State Err) : Prop extends Requests s where
  alive : s.parent = true → s.finishes = [] → s.unfinished

theorem busy_init : Busy (State.init : State Err) where
  requested := fun _ h => by cases h
  asks := fun _ _ _ h => by cases h
  alive := fun h => by cases h

/-- A stage that is alive, or has thrown out of `await_suspend()`, is something left to do. -/
theorem Core.unfinished {w : Which} (hc : Core s)
    (h : (s.get w).life.alive = true ∨ (s.get w).life = .threw) : s.unfinished := by
  rcases h with h | h
  · cases w with
    | first => exact .inl h
    | second => exact .inr (.inl h)
  · obtain ⟨f, hf, hclose⟩ := List.any_eq_true.1 (hc.closing_of_threw h)
    exact .inr (.inr ⟨f, hf, busy_of_closes hclose⟩)

theorem Requests.pop {f : Frame Err} {below : List (Frame Err)} (hb : Requests s)
    (hst : s.stack = f :: below) : Requests { s with stack := below } where
  requested := fun h₁ h₂ => by
    obtain ⟨h, hnot⟩ := hb.requested h₁ h₂
    exact ⟨h, fun g hg => hnot g (hst ▸ List.mem_cons_of_mem f hg)⟩
  asks := fun g hg => hb.asks g (hst ▸ List.mem_cons_of_mem f hg)

theorem Busy.pop {f : Frame Err} {below : List (Frame Err)} (hb : Busy s) (hst : s.stack = f :: below)
    (hf : f.busy = false) : Busy { s with stack := below } := by
  refine { hb.toRequests.pop hst with alive := fun hp hfin => ?_ }
  rcases hb.alive hp hfin with h | h | ⟨g, hg, hbusy⟩
  · exact .inl h
  · exact .inr (.inl h)
  · rcases List.mem_cons.1 (hst ▸ hg) with rfl | hg
    · cases hf.symm.trans hbusy
    · exact .inr (.inr ⟨g, hg, hbusy⟩)

theorem Requests.enter {f : Frame Err} (hb : Requests s) (hthen : f.isThen = false)
    (hf : f.asksSecond = true → s.second.life.alive = true → s.first.cancelling = false) :
    Requests (s.enter f) where
  requested := fun h₁ h₂ =>
    ⟨(hb.requested h₁ h₂).1, List.forall_mem_cons.2 ⟨hthen, (hb.requested h₁ h₂).2⟩⟩
  asks := List.forall_mem_cons.2 ⟨hf, hb.asks⟩

theorem unfinished_enter {f : Frame Err} (h : s.unfinished) : (s.enter f).unfinished := by
  rcases h with h | h | ⟨g, hg, hbusy⟩
  · exact .inl h
  · exact .inr (.inl h)
  · exact .inr (.inr ⟨g, List.mem_cons_of_mem f hg, hbusy⟩)

theorem Busy.enter {f : Frame Err} (hb : Busy s) (hthen : f.isThen = false)
    (hf : f.asksSecond = true → s.second.life.alive = true → s.first.cancelling = false) :
    Busy (s.enter f) :=
  { hb.toRequests.enter hthen hf with alive := fun hp hfin => unfinished_enter (hb.alive hp hfin) }

/-- A stage begins to be closed. -/
theorem Requests.close {f : Frame Err} (hb : Requests s) (hthen : f.isThen = false)
    (hno : f.asksSecond = false) (hf : f.busy = true) : Busy (s.enter f) :=
  { hb.enter hthen fun h => absurd (hno.symm.trans h) (by simp) with
    alive := fun _ _ => .inr (.inr ⟨f, List.mem_cons_self, hf⟩) }

/-- The scope has finished if there is a parent. -/
theorem Requests.resumeParent (hb : Requests s) : Busy s.resumeParent := by
  unfold State.resumeParent
  split_ifs with hp
  · exact { hb with alive := fun _ h => (by simp at h) }
  · exact { hb with alive := fun h => absurd h hp }

theorem Requests.refuse {w : Which} {no : Bool} (hb : Requests s) : Requests (s.refuse w no) := by
  cases w <;> exact { hb with }

theorem Requests.finish {w : Which} (hb : Requests s)
    (hnot : w = .second → ∀ f ∈ s.stack, f.isThen = false) : Requests (s.finish w) := by
  cases w with
  | first => exact { hb with }
  | second => exact ⟨fun _ _ => ⟨rfl, hnot rfl⟩, fun _ _ _ h => by cases h⟩

theorem Requests.confirm {w : Which} (hb : Requests s)
    (hnot : w = .second → ∀ f ∈ s.stack, f.isThen = false) : Requests (s.confirm w) := by
  refine hb.refuse.finish fun hw => ?_
  subst hw
  exact hnot rfl

/-! ### Stages that end -/

theorem Requests.joins {w : Which} {both ret : Bool} (hc : Core s) (hb : Requests s)
    (hend : (s.get w).life = .ended) (h : Joins s w both u ret) : Busy u := by
  cases h with
  | last => exact hb.resumeParent
  | waits hd hcan =>
    refine { hb with alive := fun _ _ => hc.unfinished (w := w.other) ?_ }
    cases w with
    | first => exact hc.second.alive (hc.second.cancelling hcan) hd
    | second => exact hc.first.alive (hc.first.cancelling hcan) hd
  | asks hd _ _ hbuilt =>
    cases w with
    | first =>
      have hu : Busy { s with second := { s.second with
          cancelling := true, asked := s.second.started } } := { hb with
        alive := fun _ _ => .inr (.inl (hc.alive_of_built hbuilt hd)) }
      exact hu.enter rfl fun h => by cases h
    | second =>
      have hl : s.second.life = .ended := hend
      have hnot := hc.not_then (by simp [hl])
      have hcm : Core { s with first := { s.first with
          cancelling := true, asked := s.first.started } } :=
        hc.mark (w := .first) (hc.first.built hbuilt) id
      have hu : Busy { s with first := { s.first with
          cancelling := true, asked := s.first.started } } := {
        requested := fun _ _ => ⟨by rw [hl]; rfl, hnot⟩
        asks := fun _ _ _ h => absurd h (by rw [hl]; simp [Life.alive])
        alive := fun _ _ => hcm.unfinished (w := .first)
          (hc.first.alive (hc.first.built hbuilt) hd) }
      exact hu.enter rfl fun h => by cases h

theorem Requests.destroySecond {stage : Stage Err} {both : Bool} (hb : Requests s) :
    Busy (s.destroySecond stage both) := by
  have hu : Requests s.leave := { hb with }
  exact hu.close rfl rfl rfl

theorem Requests.settles {w : Which} {both ret : Bool} (hc : Core s) (hb : Requests s)
    (hend : (s.get w).life = .ended) (h : Settles s w both u ret) : Busy u := by
  cases h with
  | destroys => exact hb.destroySecond
  | takes => exact hb.close rfl rfl rfl
  | joins _ h => exact hb.joins hc hend h

theorem Requests.ends {w : Which} {both ret : Bool} (hc : Core (s.finish w)) (hb : Requests s)
    (h : Ends s w both u ret) : Busy u := by
  have hbf : Requests (s.finish w) := by
    refine hb.finish fun hw => ?_
    subst hw
    exact hc.not_then (by simp [State.finish])
  cases h with
  | asks => exact hbf.close rfl rfl (busy_of_closes (w := w) (by simp [Frame.closes]))
  | settles h => exact hbf.settles hc (life_finish w) h

theorem Requests.endsAlive {w : Which} {both ret : Bool} (hc : Core s) (hb : Requests s)
    (hal : (s.get w).life.alive = true) (h : Ends s w both u ret) : Busy u :=
  hb.ends (hc.finish (not_new_of_alive hal) (not_threw_of_alive hal)) h

theorem Busy.readies {w : Which} {both ret : Bool} (hc : Core s) (hb : Busy s)
    (h : Readies s w both u ret) : Busy u := by
  cases h with
  | ready hin he => exact hb.endsAlive hc (alive_of_isIn hin rfl) he
  | suspends hin =>
    have hidle := (isIn_iff.1 hin).2
    cases w with
    | first =>
      have hu : Busy { s with first := { s.first with started := true, life := .running } } :=
        { hb with alive := fun _ _ => .inl rfl }
      exact hu.enter rfl fun h => by cases h
    | second =>
      have hal : s.second.life.alive = true := by
        rw [show s.second.life = _ from hidle]
        rfl
      have hu : Busy { s with second := { s.second with started := true, life := .running } } := {
        requested := fun h₁ h₂ => absurd ((hb.requested h₁ h₂).1.symm.trans hal) (by simp)
        asks := fun f hf h _ => hb.asks f hf h hal
        alive := fun _ _ => .inr (.inl rfl) }
      exact hu.enter rfl fun h => by cases h

theorem Busy.begins {w : Which} {both ret : Bool} (hc : Core s) (hb : Busy s)
    (hno : w = .first → s.stack = []) (h : Begins s w both u ret) : Busy u := by
  cases h with
  | done => exact hb
  | early _ hcan =>
    cases w with
    | first =>
      have hu : Busy { s with first := { s.first with cancelling := true } } := { hb with
        requested := fun h => absurd (hcan.symm.trans h) (by simp)
        asks := fun f hf => (by
          rw [show s.stack = _ from hno rfl] at hf
          cases hf) }
      exact hu.enter rfl fun h => by cases h
    | second =>
      have hu : Busy { s with second := { s.second with cancelling := true } } := { hb with }
      exact hu.enter rfl fun h => by cases h
  | readies _ _ hr => exact hb.readies hc hr

theorem Busy.next {both ret : Bool} (hc : Core s) (hb : Busy s)
    (hcont : Continues (State.next both) s ret t) : Busy t := by
  rcases next_cases hcont with ⟨rfl, -⟩ | ⟨-, -, ret', h⟩
  · exact hb
  · exact hb.begins hc (by simp) h

/-! ### The parent -/

/-- The parent gets an answer. -/
theorem Busy.cancelReturned {early done : Bool} (hb : Busy s) : Busy (s.cancelReturned early done) :=
  { hb with
    alive := fun hp hfin => hb.alive hp (List.prefix_nil.1 (by
      rw [← hfin]
      exact within_cancelReturned.finishes)) }

/-- `doCancel()` goes for the first stage. -/
theorem Busy.cancelsFirst {early afterSecond : Bool} (hb : Busy s) (hcan : s.cancelling = true)
    (hno : s.stack.countP Frame.isDoCancel = 0) (h : CancelsFirst s early afterSecond u) :
    Busy u := by
  cases h with
  | returns => exact hb.cancelReturned
  | asks =>
    have hu : Busy { s with first := { s.first with
        cancelling := true, asked := s.first.started } } := { hb with
      requested := fun h => absurd (hcan.symm.trans h) (by simp)
      asks := fun f hf h => absurd (isDoCancel_of_asksSecond h) (List.countP_eq_zero.1 hno f hf) }
    exact hu.enter rfl fun h => by cases h

theorem Busy.doCancels {early : Bool} (hb : Busy s) (hcan : s.cancelling = true)
    (hno : s.stack.countP Frame.isDoCancel = 0)
    (hfirst : s.second.isRunning = true → s.second.life.alive = true → s.first.cancelling = false)
    (h : DoCancels s early u) : Busy u := by
  cases h with
  | again => exact hb.cancelReturned
  | gone _ _ _ h => exact hb.cancelsFirst hcan hno h
  | asks hrun =>
    have hu : Busy { s with second := { s.second with
        cancelling := true, asked := s.second.started } } := { hb with }
    exact hu.enter rfl fun _ hal => hfirst hrun hal
  | first _ h => exact hb.cancelsFirst hcan hno h

/-! ### Every step -/

theorem Busy.made {executor : Bool} {below : List (Frame Err)} (hc : Core s) (hb : Busy s)
    (hst : s.stack = .thenFn executor :: below) : Busy ({ s with stack := below }.made) := by
  have hnew := (hc.thenFn _ (mem_top hst) rfl).1
  refine ⟨⟨fun h₁ h₂ => ?_, fun f hf h => ?_⟩, fun _ _ => .inr (.inl rfl)⟩
  · cases (hb.requested h₁ h₂).2 _ (mem_top hst)
  · have hmem : f ∈ s.stack := hst ▸ List.mem_cons_of_mem _ hf
    exact absurd hnew (hc.second.cancelling
      (hc.asksSecond f hmem (asks_of_asksSecond hc hmem h)))

theorem Requests.thenThrew {executor : Bool} {below : List (Frame Err)} {err : Err} (hb : Requests s)
    (hst : s.stack = .thenFn executor :: below) :
    Requests { s with stack := below, stage := .exception err, thrown := some err } :=
  { hb.pop hst with }

theorem Busy.making {a : Action Err} (hc : Core s) (hk : Tidy s) (hb : Busy s) (h : Making s a t) :
    Busy t := by
  cases h with
  | constructs hst =>
    have hnew := hc.construct _ (mem_top hst) rfl
    exact { hb.toRequests.pop hst with alive := fun hp => absurd hnew (hc.parented hp).1 }
  | ignored => exact { hb with }
  | signals hm _ hno =>
    exact {
      requested := fun _ h => absurd (hno.symm.trans h) (by simp)
      asks := List.forall_mem_cons.2 ⟨fun h => (by cases h), hb.asks⟩
      alive := fun _ _ => .inr (.inr ⟨_, List.mem_cons_self, rfl⟩) }
  | makes hst => exact hb.made hc hst
  | makesBegins hst _ h => exact (hb.made hc hst).begins (hc.made hst) (by simp) h
  | @makesCancels _ below hst =>
    have hu := hb.made hc hst
    have hu' : Busy { ({ s with stack := below } : State Err).made with
        second := { s.made.second with cancelling := true, asked := s.second.started } } :=
      { hu with }
    exact hu'.enter rfl fun h => by cases h
  | throwsWaits hst =>
    have hd := hk.thenFn _ (mem_top hst) rfl
    exact { hb.thenThrew hst with
      alive := fun hp _ =>
        .inl ((hc.first.alive (hc.parented hp).1 hd).resolve_right hk.notThrew) }
  | throwsLast hst => exact (hb.thenThrew hst).resumeParent
  | @throwsAsks _ below err hst _ hd hbuilt =>
    have hnew := (hc.thenFn _ (mem_top hst) rfl).1
    have hnot := not_then_of_countP (hc.opened hst rfl).2
    have hu : Busy { s with
        stack := below
        stage := .exception err
        thrown := some err
        first := { s.first with cancelling := true, asked := s.first.started } } := {
      requested := fun _ _ => ⟨by rw [hnew]; rfl, hnot⟩
      asks := fun _ _ _ h => absurd h (by rw [hnew]; simp [Life.alive])
      alive := fun _ _ =>
        .inl ((hc.first.alive (hc.first.built hbuilt) hd).resolve_right hk.notThrew) }
    exact hu.enter rfl fun h => by cases h

theorem Busy.confirmsSecond {early e : Bool} {below : List (Frame Err)} (hc : Core s) (hk : Tidy s)
    (hb : Busy s) (hst : s.stack = .cancelStage .second early (.doCancelSecond e) :: below)
    (hin : s.isIn .second (if early then .idle else .running) = true)
    (h : CancelsFirst ({ s with stack := below }.confirm .second) e true u) : Busy u := by
  have hnot : ∀ f ∈ below, f.isThen = false := hc.not_then_below hst rfl
  have hno : s.first.cancelling = false := hb.asks _ (mem_top hst) rfl (alive_of_isIn hin alive_ite)
  have hcan : s.cancelling = true := hc.requested _ (mem_top hst) rfl
  have hu := (hb.toRequests.pop hst).confirm (w := .second) fun _ => hnot
  cases h with
  | @returns done _ h₂ =>
    cases done with
    | true => exact { hu with alive := fun _ h => (by simp [State.cancelReturned] at h) }
    | false => cases hno.symm.trans (h₂ rfl)
  | asks _ hd hbuilt =>
    have hal : s.first.life.alive = true :=
      (hc.first.alive (hc.first.built hbuilt) hd).resolve_right hk.notThrew
    have hbusy : Busy { (({ s with stack := below } : State Err).confirm .second) with
        first := { s.first with cancelling := true, asked := s.first.started } } := {
      requested := fun h => absurd (hcan.symm.trans h) (by simp)
      asks := fun _ _ _ h => (by cases h)
      alive := fun _ _ => .inl hal }
    exact hbusy.enter rfl fun h => by cases h

theorem Busy.confirmsFirst {early e after : Bool} {below : List (Frame Err)} (hc : Core s)
    (hb : Busy s) (hst : s.stack = .cancelStage .first early (.doCancelFirst e after) :: below)
    (hin : s.isIn .first (if early then .idle else .running) = true) :
    Busy (({ s with stack := below }.confirm .first).cancelReturned e
      (after || !s.second.isRunning)) := by
  have hu := (hb.toRequests.pop hst).confirm (w := .first) (by simp)
  have hcu := hc.confirmed hst hin
  cases hret : after || !s.second.isRunning with
  | true => exact { hu with alive := fun _ h => (by simp [State.cancelReturned] at h) }
  | false =>
    simp only [Bool.or_eq_false_iff, Bool.not_eq_false'] at hret
    have hbusy : Busy (({ s with stack := below } : State Err).confirm .first) :=
      { hu with alive := fun _ _ => hcu.unfinished (w := .second) (hcu.alive_of_running hret.2) }
    exact hbusy.cancelReturned

theorem Busy.answering {a : Action Err} (hc : Core s) (hk : Tidy s) (hb : Busy s)
    (h : Answering s a t) : Busy t := by
  cases h with
  | beginReadies hst hr hcont =>
    have hcp := hc.pop hst fun _ => rfl
    exact ((hb.pop hst rfl).readies hcp hr).next (hcp.readies (hc.mayBegin hst) hr) hcont
  | @beginConfirms w both _ below _ _ hst hin h hcont =>
    have hal : ((({ s with stack := below } : State Err).refuse w true).get w).life.alive = true := by
      rw [life_refuse]
      have hal := alive_of_isIn hin rfl
      cases w <;> exact hal
    exact ((hb.toRequests.pop hst).refuse.endsAlive (hc.pop hst fun _ => rfl).refuse hal h).next
      (hc.refusedEnds hst hin h) hcont
  | refusesDone hst hcont => exact (hb.pop hst rfl).next (hc.pop hst fun _ => rfl) hcont
  | refusesDoCancel hst => exact (hb.pop hst rfl).cancelReturned
  | refusesThrew hst => exact hb.pop hst rfl
  | refusesStarted hst hcont => exact (hb.pop hst rfl).next (hc.pop hst fun _ => rfl) hcont
  | @confirmsDone w _ _ below _ hst hin hcont =>
    have hnot : w = .second → ∀ f ∈ below, f.isThen = false := fun hw =>
      hc.not_then_below hst (by subst hw; rfl)
    exact ((hb.toRequests.pop hst).confirm hnot).resumeParent.next
      (hc.confirmed hst hin).resumeParent hcont
  | confirmsSecond hst hin h => exact hb.confirmsSecond hc hk hst hin h
  | confirmsFirst hst hin => exact hb.confirmsFirst hc hst hin
  | confirmsThrew hst => exact ((hb.toRequests.pop hst).confirm (by simp)).resumeParent
  | @confirmsStarted _ _ _ below _ hst hin h =>
    have hal : s.second.life.alive = true := alive_of_isIn hin alive_ite
    have hcr : Core ({ s with stack := below }.refuse .second true) :=
      (hc.pop hst fun _ => rfl).refuse
    exact (hb.toRequests.pop hst).refuse.endsAlive (w := .second) hcr hal h

theorem Busy.ending {a : Action Err} (hc : Core s) (hb : Busy s) (h : Ending s a t) : Busy t := by
  cases h with
  | suspendReturns hst hcont => exact (hb.pop hst rfl).next (hc.pop hst fun _ => rfl) hcont
  | @suspendThrows w both _ below err _ _ hst hin _ he hcont =>
    obtain ⟨hcs, hal, hm⟩ := hc.threw err hst hin
    have hu : Requests ({ s with stack := below }.switchTo (.exception err)) :=
      { hb.toRequests.pop hst with }
    exact (hu.endsAlive hcs hal he).next (hcs.endsAlive hal hm he) hcont
  | @suspendFails w both below _ hst =>
    have hu : Requests (({ s with stack := below } : State Err).fail w).leave := by
      have hpop := hb.toRequests.pop hst
      cases w with
      | first => exact { hpop with }
      | second => exact ⟨fun h₁ h₂ => ⟨rfl, (hpop.requested h₁ h₂).2⟩, fun _ _ _ h => by cases h⟩
    exact hu.close rfl rfl (busy_of_closes (w := w) (by simp [Frame.closes]))
  | resumes hin he => exact hb.endsAlive hc (alive_of_isIn hin rfl) he
  | mustResumes hst _ hs hcont =>
    obtain ⟨hcr, hend, hm⟩ := hc.mustResumed hst _
    exact ((hb.toRequests.pop hst).refuse.settles hcr hend hs).next (hcr.settles hend hm hs) hcont
  | takesResult hst =>
    have hpop := hb.toRequests.pop hst
    exact Requests.destroySecond { hpop with }
  | resultThrows hst => exact (hb.toRequests.pop hst).destroySecond
  | @destroyed stage both _ below _ _ hst _ hj hcont =>
    have hend : s.second.life = .ended := hc.holds _ (mem_top hst)
    obtain rfl := hc.both_destroySecond hst
    have hu : Requests { s with stack := below, stage := stage } := { hb.toRequests.pop hst with }
    exact (hu.joins (w := .second) (hc.destroyed hst) hend hj).next
      (hc.joinsDestroyed hst hj) hcont
  | @destroyedThrown err _ _ _ below _ _ hst _ he hcont =>
    have hu : Requests { s with stack := below, stage := .exception err } :=
      { hb.toRequests.pop hst with }
    exact (hu.ends (hc.endsThrown hst) he).next (hc.endsDestroyed hst he) hcont

theorem Busy.suspends {c : Checker} {ret : Bool} {v : State Err} (hc : Core s) (hk : Tidy s)
    (he : s.parent = false → Early s) (hb : Busy s) (hbuilt : s.first.built = true)
    (hst : s.stack = []) (hcheck : s.checker.aboutToSuspend = some c)
    (hbeg : Begins { s with checker := c, parent := true } .first s.stage.isSecond u ret)
    (hcont : Continues (State.next s.stage.isSecond) u ret v) : Busy v := by
  have hbef : before s.checker.state = true := by
    rcases aboutToSuspend_state hcheck with ⟨-, h⟩ | ⟨-, h⟩ <;> rw [h] <;> rfl
  have hfin : s.finishes = [] := by
    by_contra hne
    cases (hk.finished hne).not_before.symm.trans hbef
  have hp : s.parent = false := by
    by_contra hp
    cases (hc.parented (by simpa using hp)).2.symm.trans hbef
  have hd : s.first.done = false := by
    by_contra hd
    obtain ⟨-, hex⟩ := (he hp).first hfin hbuilt (by simpa using hd)
    cases hex.symm.trans (aboutToSuspend_hasExecutor hcheck).1
  have hu : Busy { s with checker := c, parent := true } := { hb with
    alive := fun _ _ =>
      .inl ((hc.first.alive (hc.first.built hbuilt) hd).resolve_right hk.notThrew) }
  have hcu := hc.suspends hbuilt hcheck
  exact (hu.begins hcu (fun _ => hst) hbeg).next (hcu.begins (hc.mayBegin_suspends hst) hbeg) hcont

theorem Busy.preparing {a : Action Err} (hc : Core s) (hk : Tidy s)
    (he : s.parent = false → Early s) (hb : Busy s) (h : Preparing s a t) : Busy t := by
  cases h with
  | ready => exact { hb with }
  | cancelsEarly _ hst hsome h =>
    have hp : s.parent = false := by
      by_contra hp
      cases (before_of_earlyCancelReturned hsome).symm.trans (hc.parented (by simpa using hp)).2
    have hu : Busy { s with cancelling := true } := { hb with requested := fun h => (by cases h) }
    refine hu.doCancels rfl ?_ (fun hrun => ?_) h
    · show s.stack.countP Frame.isDoCancel = 0
      rw [hst]
      rfl
    · cases ((he hp).not_running hc).symm.trans hrun
  | setsExecutor => exact { hb with }
  | suspends hbuilt hst hcheck hbeg hcont => exact hb.suspends hc hk he hbuilt hst hcheck hbeg hcont

theorem Busy.performing {a : Action Err} (hk : Tidy s) (ha : Asked s) (hb : Busy s)
    (h : Performing s a t) : Busy t := by
  cases h with
  | cancels _ hrun h =>
    have hfin : s.finishes = [] := by
      by_contra hne
      have hover := (hk.finished hne).checker
      rw [hrun] at hover
      cases hover
    have hno := hk.no_doCancel hfin hrun
    have hcan : s.cancelling = false := by
      refine ha (by rw [hrun]; rfl) fun f hf => ?_
      have hdo := List.countP_eq_zero.1 hno f hf
      by_contra hearly
      exact hdo (isDoCancel_of_isEarly (by simpa using hearly))
    have hu : Busy { s with checker := s.checker.set .cancelling, cancelling := true } := { hb with
      requested := fun h => (by cases h) }
    refine hu.doCancels rfl hno (fun _ hal => ?_) h
    show s.first.cancelling = false
    by_contra hfc
    cases (hb.requested hcan (by simpa using hfc)).1.symm.trans hal
  | mustResume => exact { hb with }
  | takes => exact { hb with }
  | destroys => exact { hb with }

theorem Busy.change {a : Action Err} (hc : Core s) (hk : Tidy s) (he : s.parent = false → Early s)
    (ha : Asked s) (hb : Busy s) (h : Change s a t) : Busy t := by
  cases h with
  | @answers w => cases w <;> exact { hb with }
  | making h => exact hb.making hc hk h
  | answering h => exact hb.answering hc hk h
  | ending h => exact hb.ending hc h
  | preparing h => exact hb.preparing hc hk he h
  | performing h => exact hb.performing hk ha h

end Corral.With
