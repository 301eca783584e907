import Corral.With.Safety

/-!
# Exceptions out of `then()`

* `Thrown`: what holds once `then()` has thrown: the second stage is never made, the first one has
  been asked to cancel itself, and the parent is resumed as soon as it has ended and been closed;
* `constructed`: the stages are used only while they exist, and the exception is the result.
-/

namespace Corral.With

open ActionMachine AwaiterStateChecker

variable {Err : Type*} {s t u : State Err} {err : Err}

structure ThrownBut (s : State Err) (err : Err) : Prop where
  stage : s.first.built = true → s.stage = .exception err
  second : s.second.life = .new
  signalled : s.signalled = true
  executor : s.checker.hasExecutor = true
  cancelling : s.first.cancelling = true
  calls : ∀ f ∈ s.stack, f.isThen = false ∧ f.isDoCancel = false
  checker : s.checker.state ≠ .cancelled

/-- `then()` has thrown `err`. -/
structure Thrown (s : State Err) (err : Err) : Prop extends ThrownBut s err where
  finishes : s.finishes =
    if s.parent ∧ s.first.done ∧ s.closing .first = false then [.resumed] else []

theorem closing_pop {f : Frame Err} {below : List (Frame Err)} {w : Which}
    (hst : s.stack = f :: below) (hf : f.closes w = false) :
    ({ s with stack := below } : State Err).closing w = s.closing w := by
  simp [State.closing, hst, hf]

theorem ThrownBut.pop {f : Frame Err} {below : List (Frame Err)} (ht : ThrownBut s err)
    (hst : s.stack = f :: below) : ThrownBut { s with stack := below } err :=
  { ht with calls := fun g hg => ht.calls g (hst ▸ List.mem_cons_of_mem f hg) }

theorem Thrown.pop {f : Frame Err} {below : List (Frame Err)} (ht : Thrown s err)
    (hst : s.stack = f :: below) (hf : f.closes .first = false) :
    Thrown { s with stack := below } err :=
  { ht.toThrownBut.pop hst with
    finishes := by
      rw [closing_pop hst hf]
      exact ht.finishes }

theorem Thrown.unfinished (ht : Thrown s err) (hd : s.first.done = false) : s.finishes = [] := by
  rw [ht.finishes, if_neg (by simp [hd])]

theorem resumed_ne_cancelled {c : Checker} (h : c.state ≠ .cancelled) :
    (c.resumed.getD c).state ≠ .cancelled := by
  rcases resumed_getD c with ⟨h', -⟩ | ⟨-, h'⟩ | ⟨-, h'⟩
  · rwa [h']
  · simp [h']
  · simp [h']

/-- The first stage has ended and been closed, so the parent is resumed, if it has been suspended. -/
theorem ThrownBut.resumeParent (ht : ThrownBut s err) (hd : s.first.done = true)
    (hclose : s.closing .first = false) (hfin : s.finishes = []) : Thrown s.resumeParent err := by
  unfold State.resumeParent
  split_ifs with hp
  · have hclose' : (({ s with
        finishes := s.finishes ++ [.resumed]
        checker := s.checker.resumed.getD s.checker } : State Err)).closing .first = false := hclose
    exact { ht with
      executor := (hasExecutor_resumed _).trans ht.executor
      checker := resumed_ne_cancelled ht.checker
      finishes := by rw [if_pos ⟨hp, hd, hclose'⟩]; simp [hfin] }
  · exact { ht with finishes := by simp [hfin, hp] }

/-- There is no second stage to wait for. -/
theorem ThrownBut.joins {both ret : Bool} (hok : StageOk s.second) (ht : ThrownBut s err)
    (hd : s.first.done = true) (hclose : s.closing .first = false) (hfin : s.finishes = [])
    (h : Joins s .first both u ret) : Thrown u err := by
  cases h with
  | last => exact ht.resumeParent hd hclose hfin
  | waits _ hcan => exact absurd ht.second (hok.cancelling hcan)
  | asks _ _ _ hb => exact absurd ht.second (hok.built hb)

theorem ThrownBut.settles {both ret : Bool} (hok : StageOk s.second) (ht : ThrownBut s err)
    (hd : s.first.done = true) (hclose : s.closing .first = false) (hfin : s.finishes = [])
    (h : Settles s .first both u ret) : Thrown u err := by
  cases h with
  | destroys hw => cases hw
  | takes hw => cases hw
  | joins _ h => exact ht.joins hok hd hclose hfin h

/-- The first stage ends. -/
theorem ThrownBut.ends {both ret : Bool} (hok : StageOk s.second) (ht : ThrownBut s err)
    (hclose : s.closing .first = false) (hfin : s.finishes = []) (h : Ends s .first both u ret) :
    Thrown u err := by
  have hu : ThrownBut (s.finish .first) err := { ht with }
  have hok' : StageOk (s.finish .first).second := hok
  cases h with
  | asks =>
    have hclose' : ((s.finish .first).enter (.mustResume .first both)).closing .first = true := rfl
    exact { hu with
      calls := List.forall_mem_cons.2 ⟨⟨rfl, rfl⟩, ht.calls⟩
      finishes := hfin.trans (if_neg (by simp [hclose'])).symm }
  | settles h => exact hu.settles hok' rfl hclose hfin h

/-- The first stage has not ended, so it is not being closed. -/
theorem Core.not_closing {w : Which} (hc : Core s) (hal : (s.get w).life.alive = true) :
    s.closing w = false :=
  closing_eq_false.2 (hc.not_closes_of_alive hal)

theorem Core.not_done {life : Life} (hc : Core s) (hin : s.isIn .first life = true)
    (hal : life.alive = true) : s.first.done = false := by
  by_contra h
  have hno := alive_of_done hc.first (by simpa using h)
  rw [← get_first, (isIn_iff.1 hin).2, hal] at hno
  cases hno

/-- The first stage ends while it is alive. -/
theorem Thrown.endsAlive {life : Life} {both ret : Bool} (hc : Core s) (ht : Thrown s err)
    (hin : s.isIn .first life = true) (hal : life.alive = true) (h : Ends s .first both u ret) :
    Thrown u err :=
  ht.toThrownBut.ends hc.second (hc.not_closing (alive_of_isIn hin hal))
    (ht.unfinished (hc.not_done hin hal)) h

theorem Thrown.readies {both ret : Bool} (hc : Core s) (ht : Thrown s err)
    (h : Readies s .first both u ret) : Thrown u err := by
  cases h with
  | ready hin h => exact ht.endsAlive hc hin rfl h
  | suspends hin =>
    have hd := hc.not_done hin rfl
    exact { ht with
      calls := List.forall_mem_cons.2 ⟨⟨rfl, rfl⟩, ht.calls⟩
      finishes := (ht.unfinished hd).trans (if_neg (by simp [State.enter, hd])).symm }

theorem refused_ne_cancelled {c : Checker} {early : Bool} (h : c.state ≠ .cancelled) :
    ((if early then c.earlyCancelReturned false else c.cancelReturned false).getD c).state ≠
      .cancelled := by
  obtain ⟨st, ex⟩ := c
  cases early <;> cases st <;> first | exact absurd rfl h | exact fun h' => by cases h'

theorem Thrown.cancelReturned {early : Bool} (ht : Thrown s err) :
    Thrown (s.cancelReturned early false) err :=
  { ht with
    executor := (hasExecutor_cancelReturned _ _ _).trans ht.executor
    checker := refused_ne_cancelled ht.checker }

/-- `doCancel()` finds that the first stage has been asked. -/
theorem Thrown.doCancels {c : Checker} {early : Bool} (hc : Core s) (ht : Thrown s err)
    (hex : c.hasExecutor = true) (hne : c.state ≠ .cancelled)
    (h : DoCancels { s with checker := c, cancelling := true } early u) : Thrown u err := by
  have hu : Thrown { s with checker := c, cancelling := true } err :=
    { ht with
      executor := hex
      checker := hne }
  have hrun : ({ s with checker := c, cancelling := true } : State Err).second.isRunning = false := by
    by_contra h
    have hal := hc.alive_of_running (by simpa using h)
    rw [ht.second] at hal
    rcases hal with h | h <;> cases h
  cases h with
  | again h => cases hrun.symm.trans h
  | gone h => cases hrun.symm.trans h
  | asks h => cases hrun.symm.trans h
  | first _ h =>
    cases h with
    | @returns done hd =>
      cases done with
      | false => exact hu.cancelReturned
      | true => cases (hd rfl).2.symm.trans ht.cancelling
    | asks h => cases h.symm.trans ht.cancelling

/-- What is on the stack below `then()`. -/
theorem Core.below_thenFn {executor : Bool} {below : List (Frame Err)} (hc : Core s)
    (hst : s.stack = .thenFn executor :: below) :
    ∀ f ∈ below, f.isThen = false ∧ f.isDoCancel = false := by
  have hnest := hc.nested
  have hnew := (hc.thenFn _ (mem_top hst) rfl).1
  rw [hst] at hnest
  intro f hf
  refine ⟨not_then_of_countP (hc.opened hst rfl).2 f hf, ?_⟩
  by_contra hdo
  have hmem : f ∈ s.stack := hst ▸ List.mem_cons_of_mem _ hf
  have hno := hnest.2.1 rfl f hf
  have hsec := hc.asksSecond f hmem
  cases f with
  | cancelStage w early caller =>
    cases w with
    | first => cases hno
    | second => exact hc.second.cancelling (hsec rfl) hnew
  | _ => simp [Frame.isDoCancel] at hdo

/-- `then()` throws. -/
theorem thrown_of_thenFn {executor : Bool} {below : List (Frame Err)} (hc : Core s) (hs : Sound s)
    (hst : s.stack = .thenFn executor :: below) :
    s.first.done = false ∧ s.finishes = [] ∧ s.second.life = .new ∧
      s.checker.state ≠ .cancelled := by
  refine ⟨hs.tidy.thenFn _ (mem_top hst) rfl, hs.tidy.unfinished_of_busy hst rfl,
    (hc.thenFn _ (mem_top hst) rfl).1, fun h => ?_⟩
  have hno := hs.told.of_busy hst rfl
  rw [h] at hno
  cases hno

/-- The second stage is not begun after the first one. -/
theorem Thrown.alone {f : Frame Err} {below : List (Frame Err)} (hs : Sound s) (ht : Thrown s err)
    (hst : s.stack = f :: below) : f.withSecond = false := by
  by_contra h
  exact hs.starts.made f (mem_top hst) (by simpa using h) ht.second

theorem Thrown.not_asks {early : Bool} {caller : Caller} {below : List (Frame Err)} (hc : Core s)
    (ht : Thrown s err) (hst : s.stack = .cancelStage .second early caller :: below) : False :=
  hc.second.cancelling (hc.asksSecond _ (mem_top hst) rfl) ht.second

theorem Thrown.not_alive {life : Life} (ht : Thrown s err) (hin : s.isIn .second life = true)
    (hal : life.alive = true) : False := by
  have hl := (isIn_iff.1 hin).2
  rw [get_second, ht.second] at hl
  subst hl
  cases hal

/-- There is no second stage. -/
theorem Thrown.absent (hc : Core s) (ht : Thrown s err) : s.stage.isSecond = false := by
  by_contra h
  exact hc.second.built (hc.built.trans (by simpa using h)) ht.second

/-- The first stage has confirmed its cancellation. -/
theorem Thrown.confirm {early : Bool} {caller : Caller} {below : List (Frame Err)} (hc : Core s)
    (ht : Thrown s err) (hst : s.stack = .cancelStage .first early caller :: below)
    (hin : s.isIn .first (if early then .idle else .running) = true) :
    Thrown ({ s with stack := below }.confirm .first).resumeParent err := by
  have hpop := ht.pop hst rfl
  refine ThrownBut.resumeParent { hpop with } rfl ?_ (ht.unfinished (hc.not_done hin alive_ite))
  have hclose := hc.not_closing (w := .first) (alive_of_isIn hin alive_ite)
  rwa [← closing_pop hst rfl] at hclose

/-! ### Every step -/

theorem delivers_making {a : Action Err} (hc : Core s) (hs : Sound s)
    (ht : s.thrown = some err → Thrown s err) (hg : Careful s a) (h : Making s a t)
    (herr : t.thrown = some err) : Thrown t err := by
  have hcalls : ∀ {executor : Bool} {below}, s.stack = .thenFn executor :: below →
      s.thrown ≠ some err := fun hst herr => by cases ((ht herr).calls _ (mem_top hst)).1
  cases h with
  | constructs hst => exact absurd (hc.construct _ (mem_top hst) rfl) (hc.prepared (ht herr).executor)
  | ignored hm => cases (unsignalled_of_maySignal hm).symm.trans (ht herr).signalled
  | signals hm => cases (unsignalled_of_maySignal hm).symm.trans (ht herr).signalled
  | makes hst => exact absurd herr (hcalls hst)
  | makesBegins hst _ h => exact absurd ((within_begins h).thrown.symm.trans herr) (hcalls hst)
  | makesCancels hst => exact absurd herr (hcalls hst)
  | throwsWaits hst hcan =>
    cases herr
    obtain ⟨hd, hfin, hnew, hne⟩ := thrown_of_thenFn hc hs hst
    exact ⟨⟨fun _ => rfl, hnew, (hc.opened hst rfl).1, hg, hcan, hc.below_thenFn hst, hne⟩,
      by simp [hfin, hd]⟩
  | throwsLast hst _ hd => cases (thrown_of_thenFn hc hs hst).1.symm.trans hd
  | throwsAsks hst =>
    cases herr
    obtain ⟨hd, hfin, hnew, hne⟩ := thrown_of_thenFn hc hs hst
    exact ⟨⟨fun _ => rfl, hnew, (hc.opened hst rfl).1, hg, rfl,
      List.forall_mem_cons.2 ⟨⟨rfl, rfl⟩, hc.below_thenFn hst⟩, hne⟩,
      by simp [State.enter, hfin, hd]⟩

theorem Thrown.answering {a : Action Err} (hc : Core s) (hs : Sound s) (ht : Thrown s err)
    (h : Answering s a t) : Thrown t err := by
  cases h with
  | @beginReadies w both _ below u _ hst h hcont =>
    cases w with
    | first =>
      have hboth : both = false := ht.alone hs hst
      subst hboth
      cases continues_ok hcont
      exact (ht.pop hst rfl).readies (hc.pop hst fun _ => rfl) h
    | second =>
      have hin : ({ s with stack := below } : State Err).isIn .second .idle = true := by
        cases h with
        | ready hin => exact hin
        | suspends hin => exact hin
      exact ((ht.pop hst rfl).not_alive hin rfl).elim
  | @beginConfirms w both _ below u _ hst hin h hcont =>
    cases w with
    | first =>
      have hboth : both = false := ht.alone hs hst
      subst hboth
      cases continues_ok hcont
      have hpop := ht.pop hst rfl
      have hu : Thrown (({ s with stack := below } : State Err).refuse .first true) err :=
        { hpop with }
      have hcr : Core (({ s with stack := below } : State Err).refuse .first true) :=
        (hc.pop hst fun _ => rfl).refuse
      have hin' : (({ s with stack := below } : State Err).refuse .first true).isIn .first .idle =
        true := hin
      exact hu.endsAlive hcr hin' rfl h
    | second => exact (ht.not_alive hin rfl).elim
  | @refusesDone w _ both _ _ hst hcont =>
    cases w with
    | first =>
      have hprop := hc.proper _ (mem_top hst)
      have hboth : both = false := by simpa [Frame.proper] using hprop
      subst hboth
      cases continues_ok hcont
      exact ht.pop hst rfl
    | second => exact (ht.not_asks hc hst).elim
  | refusesDoCancel hst _ hor =>
    have hno := (ht.calls _ (mem_top hst)).2
    rcases hor with rfl | ⟨_, rfl⟩ <;> cases hno
  | refusesThrew hst => exact ht.pop hst rfl
  | @refusesStarted w _ _ _ _ hst =>
    have hprop := hc.proper _ (mem_top hst)
    obtain rfl : w = .second := by simpa [Frame.proper] using hprop
    exact (ht.not_asks hc hst).elim
  | @confirmsDone w _ both _ _ hst hin hcont =>
    cases w with
    | first =>
      have hprop := hc.proper _ (mem_top hst)
      have hboth : both = false := by simpa [Frame.proper] using hprop
      subst hboth
      cases continues_ok hcont
      exact ht.confirm hc hst hin
    | second => exact (ht.not_asks hc hst).elim
  | confirmsSecond hst => cases (ht.calls _ (mem_top hst)).2
  | confirmsFirst hst => cases (ht.calls _ (mem_top hst)).2
  | confirmsThrew hst hin => exact ht.confirm hc hst hin
  | confirmsStarted hst => exact (ht.not_asks hc hst).elim

/-- The first stage has ended, and `await_must_resume()` returns. -/
theorem Thrown.mustResumes {must both ret : Bool} {below : List (Frame Err)} (hc : Core s)
    (hs : Sound s) (ht : Thrown s err) (hst : s.stack = .mustResume .first both :: below)
    (h : Settles ({ s with stack := below }.refuse .first (s.first.mustNotResume || !must)) .first
      both u ret) : Thrown u err := by
  have hend : s.first.life = .ended := hc.holds _ (mem_top hst)
  have hpop := ht.toThrownBut.pop hst
  have hu : ThrownBut (({ s with stack := below } : State Err).refuse .first
      (s.first.mustNotResume || !must)) err := { hpop with }
  have hok : StageOk (({ s with stack := below } : State Err).refuse .first
      (s.first.mustNotResume || !must)).second := hc.second
  have hclear : ∀ f ∈ below, f.closes .first = false := hs.tidy.clear_below hst rfl .first
  exact hu.settles hok (hc.first.ended hend) (closing_eq_false.2 hclear)
    (hs.tidy.unfinished_of_busy hst rfl) h

theorem Thrown.ending {a : Action Err} (hc : Core s) (hs : Sound s) (ht : Thrown s err)
    (herr : s.thrown = some err) (hg : Careful s a) (h : Ending s a t) : Thrown t err := by
  cases h with
  | @suspendReturns w both _ _ hst hcont =>
    have hprop := hc.proper _ (mem_top hst)
    have hboth : both = false := by
      cases w with
      | first => exact ht.alone hs hst
      | second => simpa [Frame.proper] using hprop
    subst hboth
    cases continues_ok hcont
    exact ht.pop hst rfl
  | @suspendThrows w _ _ _ _ _ _ hst hin =>
    cases w with
    | first =>
      have hno := hg.2.2 (by simp [State.suspendsFirst, hst])
      rw [herr] at hno
      cases hno
    | second => exact (ht.not_alive hin rfl).elim
  | suspendFails _ _ hsec => cases (ht.absent hc).symm.trans hsec
  | @resumes w _ _ hin h =>
    cases w with
    | first => exact ht.endsAlive hc hin rfl h
    | second => exact (ht.not_alive hin rfl).elim
  | @mustResumes w _ both _ _ _ _ hst _ h hcont =>
    cases w with
    | first =>
      have hboth : both = false := ht.alone hs hst
      subst hboth
      cases continues_ok hcont
      exact ht.mustResumes hc hs hst h
    | second =>
      have hend : s.second.life = .ended := hc.holds _ (mem_top hst)
      cases ht.second.symm.trans hend
  | takesResult _ hin => cases (ht.absent hc).symm.trans hin
  | resultThrows _ hin => cases (ht.absent hc).symm.trans hin
  | destroyed hst => exact absurd ht.second (hc.gone _ (mem_top hst) rfl).1
  | destroyedThrown hst => exact absurd ht.second (hc.gone _ (mem_top hst) rfl).1

theorem readyReturned_ne_cancelled {c c' : Checker} {val : Bool}
    (h : c.readyReturned val = some c') : c'.state ≠ .cancelled := by
  obtain ⟨st, ex⟩ := c
  cases st <;> cases val <;> cases h <;> simp [Checker.set]

/-- The parent is suspended before the first stage has ended. -/
theorem Thrown.suspends {c : Checker} {ret : Bool} (hc : Core s) (ht : Thrown s err)
    (hb : s.first.built = true) (hcheck : s.checker.aboutToSuspend = some c)
    (hd : s.first.done = false)
    (h : Begins { s with checker := c, parent := true } .first false u ret) : Thrown u err := by
  have hne : c.state ≠ .cancelled := by
    rcases aboutToSuspend_state hcheck with ⟨h, -⟩ | ⟨h, -⟩ <;> simp [h]
  have hu : Thrown { s with checker := c, parent := true } err :=
    { ht with
      executor := (aboutToSuspend_hasExecutor hcheck).2
      checker := hne
      finishes := by simp [ht.unfinished hd, hd] }
  cases h with
  | done h => cases hd.symm.trans h
  | early _ _ h => cases h.symm.trans ht.cancelling
  | readies _ _ h => exact hu.readies (hc.suspends hb hcheck) h

theorem Thrown.preparing {a : Action Err} (hc : Core s) (ht : Thrown s err)
    (herr : s.thrown = some err) (hg : Careful s a) (h : Preparing s a t) : Thrown t err := by
  cases h with
  | ready _ _ hcheck =>
    exact { ht with
      executor := (readyReturned_hasExecutor hcheck).trans ht.executor
      checker := readyReturned_ne_cancelled hcheck }
  | cancelsEarly _ _ _ h => exact ht.doCancels hc ht.executor ht.checker h
  | setsExecutor _ _ hex => cases hex.symm.trans ht.executor
  | suspends hb _ hcheck h hcont =>
    rw [ht.absent hc] at h hcont
    cases continues_ok hcont
    exact ht.suspends hc hb hcheck (hg (by simp [herr])) h

theorem Thrown.performing {a : Action Err} (hc : Core s) (ht : Thrown s err)
    (h : Performing s a t) : Thrown t err := by
  cases h with
  | cancels _ _ h =>
    have hne : (s.checker.set .cancelling).state ≠ .cancelled := by simp [Checker.set]
    exact Thrown.doCancels (c := s.checker.set .cancelling) hc ht ht.executor hne h
  | mustResume hb =>
    have hmust : s.mustResume = true := by simp [State.mustResume, ht.stage hb]
    exact { ht with checker := by simp [hmust, Checker.set] }
  | takes _ hcheck =>
    exact { ht with
      executor := (aboutToResume_hasExecutor hcheck).trans ht.executor
      checker := by rw [aboutToResume_state hcheck]; simp }
  | destroys => exact { ht with stage := fun h => by cases h }

theorem thrown_of_preparing {a : Action Err} (h : Preparing s a t) : t.thrown = s.thrown := by
  cases h with
  | ready => rfl
  | cancelsEarly _ _ _ h => exact (within_doCancels h).thrown
  | setsExecutor => rfl
  | suspends _ _ _ h hcont => exact ((within_begins h).trans (within_next hcont)).thrown

theorem thrown_of_performing {a : Action Err} (h : Performing s a t) : t.thrown = s.thrown := by
  cases h with
  | cancels _ _ h => exact (within_doCancels h).thrown
  | mustResume => rfl
  | takes => rfl
  | destroys => rfl

/-- An exception out of `then()` is on its way to the parent. -/
def Delivers (s : State Err) : Prop := ∀ err, s.thrown = some err → Thrown s err

theorem Delivers.change {a : Action Err} (hc : Core s) (hs : Sound s) (ht : Delivers s)
    (hg : Careful s a) (h : Change s a t) : Delivers t := by
  intro err herr
  cases h with
  | @answers w =>
    have herr' : s.thrown = some err := by cases w <;> exact herr
    have ht := ht err herr'
    cases w <;> exact { ht with }
  | making h => exact delivers_making hc hs (ht err) hg h herr
  | answering h => exact (ht err ((keeps_answering h).thrown.symm.trans herr)).answering hc hs h
  | ending h =>
    have herr' := (keeps_ending h).thrown.symm.trans herr
    exact (ht err herr').ending hc hs herr' hg h
  | preparing h =>
    have herr' := (thrown_of_preparing h).symm.trans herr
    exact (ht err herr').preparing hc herr' hg h
  | performing h => exact (ht err ((thrown_of_performing h).symm.trans herr)).performing hc h

/-! ### The result -/

theorem delivers_of_reach (h : Reach step Careful (.init : State Err) s) : Delivers s :=
  h.invariant_of (fun _ h => And.intro (core_of_reach h) (sound_of_reach h)) (fun _ h => by cases h)
    fun _ _ _ hk hd hg hstep => Delivers.change hk.1 hk.2 hd hg (change_of_step hk.1 hstep)

/-- The executor is set while the scope is not in its first stage and there is no exception. -/
theorem setsExecutor_ne (hc : Core s) (hs : Sound s) :
    step s .awaitSetExecutor ≠ .error .assertion := by
  simp only [step, Action.agent, State.prepare]
  split_ifs with hb hex
  · simp
  · have hu := hs.prepared (by simpa using hex)
    cases hcheck : s.checker.aboutToSetExecutor with
    | none => simp [State.check, Except.bind]
    | some c =>
      show ({ s with checker := c } : State Err).setExecutor ≠ _
      unfold State.setExecutor
      rw [if_pos hb.1]
      cases hst : s.stage with
      | none => simp
      | secondStage =>
        simp only
        split_ifs <;> simp
      | firstStage => exact absurd (hc.executor (.inl (by rw [hst]; rfl))) hex
      | exception err => exact absurd hst (hu.exception err)
  · simp

/-- `then()` throws after the parent has been suspended, and the first stage confirms its
cancellation. -/
def throws : List (Action ℕ) :=
  [.firstReturns, .awaitReady, .awaitSetExecutor, .awaitSuspend, .suspendReturns, .started,
    .thenThrows 7, .cancelReturns true]

-- The destructor of the second stage lets the first one resume its handle, and the parent destroys
-- the scope before it has returned.
example : ∃ s : State ℕ, exec step .init [.firstReturns, .awaitReady, .awaitSetExecutor,
    .awaitSuspend, .suspendReturns, .started, .thenReturns, .suspendReturns, .resumes .second,
    .resultReturns, .resumes .first, .awaitResume, .destroy] = .ok s ∧
    step s .secondDestroyed = .error .dangling :=
  ⟨_, rfl, rfl⟩

end Corral.With
