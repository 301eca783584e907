import Corral.With.Objects

/-!
# The stages of a `with()` scope are used only while they exist

* `Safe`: a call does not use an object that does not exist, for every function of the scope;
* `safe_step`: nor does a step.
-/

namespace Corral.With

open ActionMachine AwaiterStateChecker

variable {Err : Type*} {s t u : State Err}

/-! ### Calls that use only what exists -/

/-- The call does not use an object that does not exist. -/
def Safe {α : Type*} (x : Except Fault α) : Prop := x ≠ .error .dangling

theorem safe_ok {α : Type*} {a : α} : Safe (.ok a) := fun h => by cases h

theorem safe_protocol {α : Type*} : Safe (.error .protocol : Except Fault α) := fun h => by cases h

theorem safe_assertion {α : Type*} : Safe (.error .assertion : Except Fault α) := fun h => by cases h

theorem Safe.bind {α β : Type*} {x : Except Fault α} {f : α → Except Fault β} (hx : Safe x)
    (hf : ∀ a, x = .ok a → Safe (f a)) : Safe (x.bind f) := by
  cases x with
  | error e => exact fun h => hx (by cases h; rfl)
  | ok a => exact hf a rfl

/-- The stage may be asked to cancel itself. -/
def StageState.Askable (st : StageState) : Prop :=
  st.cancelling = true ∨ st.done = true ∨ st.built = true

theorem safe_cancelStage {w : Which} {caller : Caller} (hfirst : w = .first → s.first.Askable)
    (hsecond : w = .second → s.second.built = s.stage.isSecond) :
    Safe (s.cancelStage w caller) := by
  unfold State.cancelStage
  simp only
  split_ifs with h₁ h₂ h₃ h₄
  · exact safe_ok
  · exact safe_ok
  · exact safe_ok
  · exact safe_ok
  · exfalso
    cases w with
    | first =>
      rcases hfirst rfl with h | h | h
      · exact h₁ h
      · exact h₃ h
      · exact h₄ h
    | second => exact h₂ ((hsecond rfl).symm.trans (by simpa using h₄))

/-- What is needed of the other stage when the stage `w` ends. -/
structure Ready (s : State Err) (w : Which) : Prop where
  first : w = .second → s.first.Askable
  second : w = .first → s.second.built = s.stage.isSecond

variable {w : Which} {both : Bool} {next : State Err → Except Fault (State Err)}

/-- `onStageDone()` asks the other stage, and goes on with the stages as they are. -/
theorem safe_joinStages (hr : Ready s w) (hnext : ∀ u, (∀ w, u.get w = s.get w) → Safe (next u)) :
    Safe (s.joinStages w both next) := by
  unfold State.joinStages
  split_ifs
  · exact hnext _ fun w => get_resumeParent w
  · refine Safe.bind (safe_cancelStage (fun hw => ?_) fun hw => ?_) fun r hv => ?_
    · exact hr.first (by cases w <;> first | rfl | cases hw)
    · exact hr.second (by cases w <;> first | rfl | cases hw)
    · obtain ⟨ret, v⟩ := r
      cases cancels_of_cancelStage hv with
      | again => exact hnext _ fun _ => rfl
      | nothing => exact hnext _ fun w => get_resumeParent w
      | asks => exact safe_ok

theorem safe_takeResult (hr : Ready s w) (hnext : ∀ u, (∀ w, u.get w = s.get w) → Safe (next u)) :
    Safe (s.takeResult w both next) := by
  unfold State.takeResult
  split_ifs
  · exact safe_ok
  · exact safe_ok
  · exact safe_joinStages hr hnext

/-- `onStageDone()` uses the stage itself, unless it is not to be resumed or has not been cancelled. -/
theorem safe_onStageDone
    (hw : (s.get w).built = true ∨ (s.get w).mustNotResume = true ∨ (s.get w).cancelling = false)
    (hr : Ready s w) (hnext : ∀ u, (∀ w', u.get w' = (s.finish w).get w') → Safe (next u)) :
    Safe (s.onStageDone w both next) := by
  unfold State.onStageDone
  simp only [State.finish, get_set]
  split_ifs with hm
  · exact safe_ok
  · exfalso
    simp only [Bool.and_eq_true, Bool.not_eq_true'] at hm
    rcases hw with h | h | h
    · contradiction
    · cases hm.1.symm.trans h
    · cases h.symm.trans hm.2
  · refine safe_takeResult ⟨?_, ?_⟩ hnext
    · rintro rfl
      exact hr.first rfl
    · rintro rfl
      exact hr.second rfl

theorem safe_beginReady (hw : (s.get w).built = true) (hr : Ready s w)
    (hnext : ∀ u, (∀ w', u.get w' = (s.finish w).get w') → Safe (next u)) :
    Safe (s.beginReady w both next) := by
  unfold State.beginReady
  simp only
  split_ifs with hb
  · cases hb.symm.trans hw
  · exact safe_assertion
  · exact safe_onStageDone (.inl hw) hr hnext
  · exact safe_ok

/-- The second stage may be begun. -/
def State.Beginnable (s : State Err) : Prop :=
  s.second.done = true ∨ s.second.built = true ∧ s.first.Askable

theorem safe_beginSecond (h : s.Beginnable) : Safe s.beginSecond := by
  unfold State.beginSecond State.beginStage
  simp only
  split_ifs with hd hcan hb
  · exact safe_ok
  · exact safe_ok
  · rcases h with h | h
    · exact absurd h hd
    · exact absurd h.1 hb
  · rcases h with h | h
    · exact absurd h hd
    · exact safe_beginReady h.1 ⟨fun _ => h.2, by simp⟩ fun _ _ => safe_ok

theorem safe_next (h : both = true → s.Beginnable) : Safe (s.next both) := by
  unfold State.next
  split_ifs with hboth
  · exact safe_beginSecond (h hboth)
  · exact safe_ok

/-- The first stage has ended, so the second one may be begun unless it is not there. -/
theorem beginnable_of_done (hd : u.first.done = true) (hu : u.second = s.second)
    (h : s.second.done = true ∨ s.second.built = true) : u.Beginnable := by
  rw [State.Beginnable, hu]
  exact h.imp id fun hb => ⟨hb, .inr (.inl hd)⟩

/-- What follows after the end of a stage that has been begun. -/
theorem safe_nextOf (hw : both = true → w = .first)
    (hbegin : both = true → s.second.done = true ∨ s.second.built = true)
    (hu : ∀ w', u.get w' = (s.finish w).get w') : Safe (u.next both) := by
  refine safe_next fun hboth => ?_
  obtain rfl := hw hboth
  exact beginnable_of_done (congrArg StageState.done (hu .first)) (hu .second) (hbegin hboth)

theorem safe_doCancelFirst {early afterSecond : Bool} (h : s.first.Askable) :
    Safe (s.doCancelFirst early afterSecond) := by
  unfold State.doCancelFirst
  refine (safe_cancelStage (fun _ => h) (by simp)).bind fun r _ => ?_
  obtain ⟨ret, u⟩ := r
  cases ret <;> exact safe_ok

theorem safe_doCancel {early : Bool} (hfirst : s.first.Askable)
    (hsecond : s.second.built = s.stage.isSecond) : Safe (s.doCancel early) := by
  unfold State.doCancel
  simp only
  split_ifs
  · have hasks : Safe (({ s with cancelling := true } : State Err).cancelStage .second
        (.doCancelSecond early)) := safe_cancelStage (by simp) fun _ => hsecond
    refine hasks.bind fun r hu => ?_
    obtain ⟨ret, u⟩ := r
    cases cancels_of_cancelStage hu with
    | again => exact safe_ok
    | nothing => exact safe_doCancelFirst hfirst
    | asks => exact safe_ok
  · exact safe_doCancelFirst hfirst

/-- The end of `markStarted()`. -/
theorem safe_startSecond {executor cancelled : Bool}
    (hcan : cancelled = true → (s.second.built = true ∨ s.second.mustNotResume = true) ∧
      s.first.Askable)
    (hexec : cancelled = false → executor = true → s.Beginnable) :
    Safe (s.startSecond executor cancelled) := by
  unfold State.startSecond
  split_ifs with h₁ h₂
  · obtain ⟨hsec, hfirst⟩ := hcan h₁
    exact safe_onStageDone (hsec.imp id .inl) ⟨fun _ => hfirst, by simp⟩ fun _ _ => safe_ok
  · exact safe_beginSecond (hexec (by simpa using h₁) h₂)
  · exact safe_ok

/-! ### What exists while a call is in progress -/

/-- Before an executor is set only a few calls are made. -/
theorem Sound.executor {f : Frame Err} {below : List (Frame Err)} (hs : Sound s)
    (hst : s.stack = f :: below) (hf : f.plain = false) : s.checker.hasExecutor = true := by
  by_contra hex
  cases hf.symm.trans ((hs.prepared (by simpa using hex)).top hst)

theorem not_dropped {f : Frame Err} {below : List (Frame Err)} (hst : s.stack = f :: below) :
    ¬ s.Dropped :=
  fun h => by cases hst.symm.trans h.2.2

/-- A scope that is used has its first stage, or is past its stages. -/
theorem Sound.present (hs : Sound s) (hex : s.checker.hasExecutor = true) (hnot : ¬ s.Dropped) :
    s.first.built = true ∨ Past s := by
  rcases hs.held hex with h | h | h
  · exact .inl h
  · exact .inr h
  · exact absurd h hnot

theorem Sound.askable (hc : Core s) (hs : Sound s) (hex : s.checker.hasExecutor = true)
    (hnot : ¬ s.Dropped) : s.first.Askable := by
  rcases hs.present hex hnot with h | h
  · exact .inr (.inr h)
  · exact .inr (.inl (hc.first.ended h.first))

/-- A stage that is alive exists, if the scope does. -/
theorem Sound.built_of_alive (hs : Sound s) (hex : s.checker.hasExecutor = true)
    (hnot : ¬ s.Dropped) (hal : (s.get w).life.alive = true) : (s.get w).built = true := by
  have hb : s.first.built = true := by
    rcases hs.present hex hnot with h | h
    · exact h
    · exact (h.not_alive hal).elim
  cases w with
  | first => exact hb
  | second =>
    rcases hs.tidy.kept hal with h | ⟨h, -⟩
    · exact h
    · cases hb.symm.trans h

/-- The first stage exists while a stage is being closed. -/
theorem Sound.built_of_busy {f : Frame Err} {below : List (Frame Err)} (hs : Sound s)
    (hst : s.stack = f :: below) (hplain : f.plain = false) (hf : f.busy = true) :
    s.first.built = true := by
  rcases hs.present (hs.executor hst hplain) (not_dropped hst) with h | h
  · exact h
  · exact (h.not_busy hst hf).elim

/-- The second stage has been made, so it can be begun if it has not ended. -/
theorem Sound.beginnable (hc : Core s) (hs : Sound s) (hex : s.checker.hasExecutor = true)
    (hnot : ¬ s.Dropped) (hne : s.second.life ≠ .new) (hthrew : s.second.life ≠ .threw) :
    s.Beginnable := by
  cases hd : s.second.done with
  | true => exact .inl hd
  | false =>
    have hal := (hc.second.alive hne hd).resolve_right hthrew
    exact .inr ⟨hs.built_of_alive (w := .second) hex hnot hal, hs.askable hc hex hnot⟩

/-- While a call is in progress that is neither made on behalf of the parent nor closes the second
stage, that one is not being destroyed. -/
theorem Tidy.not_threw_of_top {f : Frame Err} {below : List (Frame Err)} (hc : Core s) (hk : Tidy s)
    (hst : s.stack = f :: below) (hf : f.isDoCancel = false) (hf' : f.closes .second = false) :
    s.second.life ≠ .threw := by
  intro h
  obtain ⟨g, hg, hclose⟩ := List.any_eq_true.1 (hc.closing_of_threw (w := .second) h)
  rcases List.mem_cons.1 (hst ▸ hg) with rfl | hg
  · cases hf'.symm.trans hclose
  · cases (hk.clear_below hst hf .second g hg).symm.trans hclose

/-- The second stage is to be begun after the first one, so it has been made. -/
theorem Sound.beginnable_of_withSecond {f : Frame Err} {below : List (Frame Err)} (hc : Core s)
    (hs : Sound s) (hst : s.stack = f :: below) (hf : f.withSecond = true) : s.Beginnable := by
  have hf' : f.plain = false ∧ f.isDoCancel = false ∧ f.closes .second = false := by
    cases f with
    | beginEarlyCancel w | suspend w | mustResume w | destroyThrown _ w =>
      cases w <;> first | exact ⟨rfl, rfl, rfl⟩ | cases hf
    | _ => cases hf
  exact hs.beginnable hc (hs.executor hst hf'.1) (not_dropped hst)
    (hs.starts.made f (mem_top hst) hf) (hs.tidy.not_threw_of_top hc hst hf'.2.1 hf'.2.2)

/-! ### The steps -/

theorem safe_started : Safe (s.internal .started) := by
  simp only [State.internal]
  split_ifs
  · unfold State.markStarted
    split_ifs
    · exact safe_assertion
    · exact safe_ok
    · exact safe_ok
  · exact safe_protocol

theorem safe_thenReturns (hc : Core s) (hs : Sound s) : Safe (s.internal .thenReturns) := by
  simp only [State.internal]
  split
  · rename_i executor below hst
    obtain ⟨hnew, hdone⟩ := hc.thenFn _ (mem_top hst) rfl
    have hnot : s.second.cancelling = false := by
      by_contra h
      exact hc.second.cancelling (by simpa using h) hnew
    have hbegin : executor = true → s.first.Askable := by
      rintro rfl
      exact hs.askable hc (hs.executor hst rfl) (not_dropped hst)
    unfold State.thenReturns
    simp only
    split_ifs with hcan
    · refine (safe_cancelStage (w := .second) (by simp) fun _ => rfl).bind fun r hu => ?_
      obtain ⟨ret, u⟩ := r
      cases cancels_of_cancelStage hu with
      | again h => cases hnot.symm.trans h
      | nothing _ h =>
        rcases h with h | h
        · cases h
        · cases hdone.symm.trans h
      | asks => exact safe_ok
    · exact safe_startSecond (by simp) fun _ h => .inr ⟨rfl, hbegin h⟩
  · exact safe_protocol

theorem safe_thenThrows {err : Err} (hc : Core s) (hs : Sound s)
    (hg : s.checker.hasExecutor = true) : Safe (s.internal (.thenThrows err)) := by
  simp only [State.internal]
  split
  · rename_i hst
    have hask : s.first.Askable := hs.askable hc hg (not_dropped hst)
    unfold State.thenThrows
    refine Safe.bind (safe_cancelStage (fun _ => hask) (by simp)) fun r _ => ?_
    obtain ⟨ret, u⟩ := r
    cases ret <;> exact safe_ok
  · exact safe_protocol

/-- A stage that has been asked before it is begun answers. -/
theorem safe_beginAnswer {done : Bool} {below : List (Frame Err)} (hc : Core s)
    (hs : Sound s) (hst : s.stack = .beginEarlyCancel w both :: below) :
    Safe (s.internal (.earlyCancelReturns done)) := by
  have hex := hs.executor hst rfl
  have hask := hs.askable hc hex (not_dropped hst)
  have hidle := hs.starts.idle w _ (mem_top hst) (by simp [Frame.beginning])
  have hb : (s.get w).built = true := hs.built_of_alive hex (not_dropped hst) (by rw [hidle]; rfl)
  have hbegin : both = true → s.second.done = true ∨ s.second.built = true := by
    intro hboth
    obtain rfl := hc.which hst rfl hboth
    exact (hs.beginnable_of_withSecond hc hst hboth).imp id And.left
  have hr : Ready s w := ⟨fun _ => hask, fun _ => hc.built⟩
  simp only [State.internal, hst]
  split_ifs
  · have hb' : (({ s with stack := below } : State Err).get w).built = true := by
      cases w <;> exact hb
    exact safe_beginReady hb' ⟨hr.first, hr.second⟩ fun u hu =>
      safe_nextOf (s := { s with stack := below }) (hc.which hst rfl) hbegin hu
  · have hr' : Ready (({ s with stack := below } : State Err).refuse w true) w := by
      cases w <;> exact ⟨hr.first, hr.second⟩
    have hb' : ((({ s with stack := below } : State Err).refuse w true).get w).built = true := by
      cases w <;> exact hb
    have hbegin' : both = true →
        (({ s with stack := below } : State Err).refuse w true).second.done = true ∨
        (({ s with stack := below } : State Err).refuse w true).second.built = true := by
      cases w <;> exact hbegin
    have hsafe : Safe (({ s with stack := below }.refuse w true).onStageDone w both (State.next both)) :=
      safe_onStageDone (.inl hb') hr' fun u hu => safe_nextOf (hc.which hst rfl) hbegin' hu
    cases w <;> exact hsafe
  · exact safe_protocol

/-- The second stage has been asked to cancel itself, so it has been made. -/
theorem Sound.askable_of_asks {early : Bool} {caller : Caller} {below : List (Frame Err)}
    (hc : Core s) (hs : Sound s) (hst : s.stack = .cancelStage .second early caller :: below) :
    s.first.Askable :=
  hs.askable hc (hs.executor hst (by cases caller <;> rfl)) (not_dropped hst)

theorem Sound.beginnable_of_asks {early : Bool} {caller : Caller} {below : List (Frame Err)}
    (hc : Core s) (hs : Sound s) (hst : s.stack = .cancelStage .second early caller :: below)
    (hno : (Frame.cancelStage .second early caller : Frame Err).isDoCancel = false) :
    s.Beginnable := by
  have hcan := hc.toCalls.asks .second (mem_top hst) (by simp [Frame.asks])
  exact hs.beginnable hc (hs.executor hst (by cases caller <;> rfl)) (not_dropped hst)
    (hc.second.cancelling hcan) (hs.tidy.not_threw_of_top hc hst hno (by cases caller <;> rfl))

theorem safe_refused {early : Bool} {caller : Caller} {below : List (Frame Err)}
    (hc : Core s) (hs : Sound s) (hst : s.stack = .cancelStage w early caller :: below) :
    Safe ({ s with stack := below }.returnTo caller false) := by
  have hprop := hc.proper _ (mem_top hst)
  cases caller with
  | onStageDone both =>
    refine safe_next fun hboth => ?_
    obtain rfl : w = .second := by simpa [Frame.proper, hboth] using hprop
    have hbegin : s.Beginnable := hs.beginnable_of_asks hc hst rfl
    exact hbegin
  | markStarted executor =>
    obtain rfl : w = .second := by simpa [Frame.proper] using hprop
    have hbegin : s.Beginnable := hs.beginnable_of_asks hc hst rfl
    exact safe_startSecond (by simp) fun _ _ => hbegin
  | doCancelSecond | doCancelFirst | thenThrew => exact safe_ok

theorem safe_confirmed {early : Bool} {caller : Caller} {below : List (Frame Err)}
    (hc : Core s) (hs : Sound s) (hst : s.stack = .cancelStage w early caller :: below) :
    Safe (({ s with stack := below }.confirm w).returnTo caller true) := by
  have hprop := hc.proper _ (mem_top hst)
  cases caller with
  | onStageDone both =>
    refine safe_next fun hboth => .inl ?_
    obtain rfl : w = .second := by simpa [Frame.proper, hboth] using hprop
    unfold State.resumeIf
    rw [if_pos rfl, ← get_second, get_resumeParent]
    rfl
  | doCancelSecond e =>
    obtain rfl : w = .second := by simpa [Frame.proper] using hprop
    have hask : s.first.Askable := hs.askable_of_asks hc hst
    exact safe_doCancelFirst hask
  | markStarted executor =>
    obtain rfl : w = .second := by simpa [Frame.proper] using hprop
    have hask : s.first.Askable := hs.askable_of_asks hc hst
    exact safe_startSecond (fun _ => ⟨.inr rfl, hask⟩) (by simp)
  | doCancelFirst | thenThrew => exact safe_ok

/-- A stage that has been asked in `cancelStage()` answers. -/
theorem safe_stageCancelled {early done : Bool} {caller : Caller} {below : List (Frame Err)}
    (hc : Core s) (hs : Sound s) (hst : s.stack = .cancelStage w early caller :: below) :
    Safe ({ s with stack := below }.stageCancelled w caller done) := by
  cases done with
  | false => exact safe_refused hc hs hst
  | true =>
    rw [stageCancelled_true]
    exact safe_confirmed hc hs hst

theorem safe_earlyCancelReturns {done : Bool} (hc : Core s) (hs : Sound s) :
    Safe (s.internal (.earlyCancelReturns done)) := by
  cases hst : s.stack with
  | nil =>
    simp only [State.internal, hst]
    exact safe_protocol
  | cons f below =>
    cases f with
    | beginEarlyCancel w both => exact safe_beginAnswer hc hs hst
    | cancelStage w early caller =>
      simp only [State.internal, hst]
      cases early with
      | true =>
        simp only
        split_ifs
        · exact safe_stageCancelled hc hs hst
        · exact safe_protocol
      | false => exact safe_protocol
    | _ =>
      simp only [State.internal, hst]
      exact safe_protocol

theorem safe_cancelReturns {done : Bool} (hc : Core s) (hs : Sound s) :
    Safe (s.internal (.cancelReturns done)) := by
  simp only [State.internal]
  split
  · rename_i w caller below hst
    split_ifs
    · exact safe_stageCancelled hc hs hst
    · exact safe_protocol
  · exact safe_protocol

theorem safe_suspendReturns (hc : Core s) (hs : Sound s) : Safe (s.internal .suspendReturns) := by
  simp only [State.internal]
  split
  · rename_i w both below hst
    refine safe_next fun hboth => ?_
    obtain rfl := hc.which hst rfl hboth
    have hbegin : s.Beginnable := hs.beginnable_of_withSecond hc hst hboth
    exact hbegin
  · exact safe_protocol

/-- An exception of the second stage destroys it; one of the first stage comes only while there is no
second one. -/
theorem safe_suspendThrows {err : Err} (hc : Core s) (hs : Sound s) :
    Safe (s.internal (.suspendThrows err)) := by
  simp only [State.internal]
  split
  · rename_i w both below hst
    split_ifs with hin
    · obtain ⟨hb, -⟩ := isIn_iff.1 hin
      unfold State.suspendThrew
      split_ifs with hsec
      · exact safe_ok
      · have hout : s.second.built = false := hc.built.trans (by simpa using hsec)
        cases w with
        | second => cases hout.symm.trans hb
        | first =>
          refine safe_onStageDone (.inl hb) ⟨by simp, fun _ => ?_⟩ fun u hu => ?_
          · show (s.second.built && !s.stage.isSecond) = false
            simp [hout]
          · refine safe_nextOf (fun _ => rfl) (fun hboth => .inl ?_) hu
            rcases hs.beginnable_of_withSecond hc hst hboth with h | h
            · exact h
            · cases hout.symm.trans h.1
    · exact safe_protocol
  · exact safe_protocol

theorem safe_resumes (hc : Core s) (hs : Sound s) : Safe (s.internal (.resumes w)) := by
  simp only [State.internal]
  split_ifs with hin
  · obtain ⟨hb, hrun⟩ := isIn_iff.1 hin
    refine safe_onStageDone (.inl hb) ⟨?_, fun _ => hc.built⟩ fun _ _ => safe_ok
    rintro rfl
    have hnot : ¬ s.Dropped := fun h => by cases h.2.1.symm.trans hb
    refine hs.askable hc ?_ hnot
    by_contra h
    rcases (hs.prepared (by simpa using h)).second with h | h <;> cases h.symm.trans hrun
  · exact safe_protocol

/-- The stage that is asked whether it is to be resumed exists. -/
theorem Sound.built_of_mustResume {below : List (Frame Err)} (hs : Sound s)
    (hst : s.stack = .mustResume w both :: below) : (s.get w).built = true := by
  cases w with
  | first => exact hs.built_of_busy hst rfl rfl
  | second => exact hs.serving.built _ (mem_top hst) rfl

theorem safe_mustResumeReturns {must : Bool} (hc : Core s) (hs : Sound s) :
    Safe (s.internal (.mustResumeReturns must)) := by
  simp only [State.internal]
  split
  · rename_i w both below hst
    rw [if_pos (hs.built_of_mustResume hst)]
    have hask := hs.askable hc (hs.executor hst (by cases w <;> rfl)) (not_dropped hst)
    refine safe_takeResult ⟨?_, ?_⟩ fun u hu => safe_next fun hboth => ?_
    · rintro rfl
      exact hask
    · rintro rfl
      exact hc.built
    · obtain rfl := hc.which hst rfl hboth
      have hend : s.first.life = .ended := hc.holds _ (mem_top hst)
      refine beginnable_of_done ?_ (hu .second)
        ((hs.beginnable_of_withSecond hc hst hboth).imp id And.left)
      rw [← get_first, hu .first]
      exact hc.first.ended hend
  · exact safe_protocol

/-- The second stage is there while it is asked for its result. -/
theorem Sound.isSecond_of_result {below : List (Frame Err)} (hc : Core s) (hs : Sound s)
    (hst : s.stack = .result both :: below) : s.stage.isSecond = true :=
  hc.built.symm.trans (hs.serving.built _ (mem_top hst) rfl)

theorem safe_resultReturns (hc : Core s) (hs : Sound s) : Safe (s.internal .resultReturns) := by
  simp only [State.internal]
  split
  · rename_i both below hst
    rw [if_pos (hs.isSecond_of_result hc hst)]
    exact safe_ok
  · exact safe_protocol

theorem safe_resultThrows {err : Err} (hc : Core s) (hs : Sound s) :
    Safe (s.internal (.resultThrows err)) := by
  simp only [State.internal]
  split
  · rename_i both below hst
    rw [if_pos (hs.isSecond_of_result hc hst)]
    exact safe_ok
  · exact safe_protocol

/-- The scope exists until the second stage has been destroyed, and a stage that has thrown has not
been asked to cancel itself. -/
theorem safe_secondDestroyed (hc : Core s) (hs : Sound s) : Safe (s.internal .secondDestroyed) := by
  simp only [State.internal]
  split
  · rename_i stage both below hst
    have hb := hs.built_of_busy hst rfl rfl
    obtain rfl := hc.both_destroySecond hst
    rw [if_pos hb]
    exact safe_joinStages ⟨fun _ => .inr (.inr hb), by simp⟩ fun _ _ => safe_ok
  · rename_i err w both below hst
    obtain ⟨hl, -⟩ := hc.life_of_destroyThrown hst
    cases w with
    | first => exact absurd hl hs.tidy.notThrew
    | second =>
      have hb := hs.built_of_busy hst rfl rfl
      have hboth : both = false := by
        by_contra h
        cases hc.which hst rfl (by simpa using h)
      subst hboth
      rw [if_pos hb]
      exact safe_onStageDone (.inr (.inr (hs.serving.threw hl)))
        ⟨fun _ => .inr (.inr hb), by simp⟩ fun _ _ => safe_ok
  · exact safe_protocol

theorem safe_internal {a : Action Err} (hc : Core s) (hs : Sound s) (hg : Careful s a) :
    Safe (s.internal a) := by
  cases a with
  | firstReturns =>
    simp only [State.internal]
    split
    · exact safe_ok
    · exact safe_protocol
  | firstThrows => exact hg.elim
  | started => exact safe_started
  | thenReturns => exact safe_thenReturns hc hs
  | thenThrows => exact safe_thenThrows hc hs hg
  | answers => exact safe_ok
  | earlyCancelReturns => exact safe_earlyCancelReturns hc hs
  | cancelReturns => exact safe_cancelReturns hc hs
  | suspendReturns => exact safe_suspendReturns hc hs
  | suspendThrows => exact safe_suspendThrows hc hs
  | resumes => exact safe_resumes hc hs
  | mustResumeReturns => exact safe_mustResumeReturns hc hs
  | resultReturns => exact safe_resultReturns hc hs
  | resultThrows => exact safe_resultThrows hc hs
  | secondDestroyed => exact safe_secondDestroyed hc hs
  | awaitReady | awaitEarlyCancel | awaitSetExecutor | awaitSuspend | awaitCancel
  | awaitMustResume | awaitResume | destroy => exact safe_protocol

theorem safe_check {c : Option Checker} : Safe (s.check c) := by
  cases c with
  | some c => exact safe_ok
  | none => exact safe_protocol

theorem safe_setExecutor (hc : Core s) (hb : s.first.built = true) {c : Checker} :
    Safe ({ s with checker := c }.setExecutor) := by
  unfold State.setExecutor
  rw [if_pos hb]
  split
  · rename_i hst
    have hb' : s.second.built = true := hc.built.trans (by rw [show s.stage = _ from hst]; rfl)
    rw [if_pos hb']
    exact safe_ok
  · exact safe_ok
  · exact safe_assertion

theorem safe_prepare {a : Action Err} (hc : Core s) (hb : s.first.built = true) :
    Safe (s.prepare a) := by
  cases a with
  | awaitReady => exact safe_check
  | awaitEarlyCancel =>
    simp only [State.prepare]
    split_ifs
    · exact safe_doCancel (.inr (.inr hb)) hc.built
    · exact safe_protocol
  | awaitSetExecutor =>
    simp only [State.prepare]
    split_ifs
    · exact safe_protocol
    · refine safe_check.bind fun u hu => ?_
      obtain ⟨c, -, rfl⟩ := check_eq_ok hu
      exact safe_setExecutor hc hb
  | awaitSuspend =>
    refine safe_check.bind fun u hu => ?_
    obtain ⟨c, -, rfl⟩ := check_eq_ok hu
    simp only
    unfold State.beginStage
    simp only
    have hbegin : s.stage.isSecond = true → s.second.done = true ∨ s.second.built = true :=
      fun hin => .inr (hc.built.trans hin)
    split_ifs with hd hcan hb'
    · exact safe_next fun hin => beginnable_of_done (s := s) hd rfl (hbegin hin)
    · exact safe_ok
    · exact absurd hb hb'
    · exact safe_beginReady hb ⟨by simp, fun _ => hc.built⟩ fun u hu =>
        safe_nextOf (s := { s with checker := c, parent := true }) (fun _ => rfl) hbegin hu
  | _ => exact safe_protocol

theorem safe_perform {a : Action Err} (hc : Core s) (hb : s.first.built = true) :
    Safe (s.perform a) := by
  cases a with
  | awaitCancel =>
    refine safe_check.bind fun u hu => ?_
    obtain ⟨c, -, rfl⟩ := check_eq_ok hu
    exact safe_doCancel (.inr (.inr hb)) hc.built
  | awaitMustResume =>
    simp only [State.perform]
    split_ifs
    · exact safe_assertion
    · exact safe_check
  | awaitResume =>
    refine safe_check.bind fun u hu => ?_
    obtain ⟨c, -, rfl⟩ := check_eq_ok hu
    unfold State.awaitResume
    rw [if_neg (by simp [hb])]
    exact safe_ok
  | destroy =>
    simp only [State.perform]
    split_ifs
    · unfold State.destroy
      rw [if_pos hb]
      exact safe_ok
    · exact safe_protocol
  | _ => exact safe_protocol

/-- A stage is used only while it exists. -/
theorem safe_step {a : Action Err} (hc : Core s) (hs : Sound s) (hg : Careful s a) :
    Safe (step s a) := by
  unfold step
  split
  · exact safe_internal hc hs hg
  · split_ifs with h
    · exact safe_prepare hc h.1
    · exact safe_protocol
  · split_ifs with h
    · exact safe_perform hc h
    · exact safe_protocol

end Corral.With
