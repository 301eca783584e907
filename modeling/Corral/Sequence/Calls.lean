import Corral.Lib.History
import Corral.Sequence.Model

/-!
# `Sequence`: the calls of `fn`

* `Keeps`: what a function does that does not call `fn`;
* `Called`: a co_await that has begun, before the call of `fn` or after it;
* `calls_of_reach`: `fn` is called at most once, with the value of the first awaiter.
-/

namespace Corral.Sequence

open ActionMachine History

variable {V W E : Type*} {first : Awaiter V E} {fn : V → Except E (Awaiter W E)}

def Event.isFn : Event V W E → Bool
  | .fn _ => true
  | _ => false

/-- `fn` is called once, with the value of the first awaiter; nothing is said of the other events. -/
def Allowed (l : List (Event V W E)) : Event V W E → Prop
  | .fn x => .resumedFirst (.ok x) ∈ l ∧ ∀ e ∈ l, e.isFn = false
  | _ => True

/-- What happens in `t` after `s`, without a call of `fn`; the first stage is not entered. -/
structure Keeps (s t : State V W E) : Prop where
  log : ∃ l, t.log = s.log ++ l ∧ ∀ e ∈ l, e.isFn = false
  stage : t.stage = .firstStage → s.stage = .firstStage
  started : t.started = s.started

theorem Keeps.refl (s : State V W E) : Keeps s s := ⟨⟨[], by simp, by simp⟩, id, rfl⟩

theorem Keeps.trans {s t u : State V W E} (h : Keeps s t) (h' : Keeps t u) : Keeps s u := by
  obtain ⟨l, hl, hno⟩ := h.log
  obtain ⟨l', hl', hno'⟩ := h'.log
  refine ⟨⟨l ++ l', by rw [hl', hl, List.append_assoc], fun e he => ?_⟩, fun hs => ?_, ?_⟩
  · rcases List.mem_append.1 he with he | he
    · exact hno e he
    · exact hno' e he
  · exact h.stage (h'.stage hs)
  · exact h'.started.trans h.started

theorem Keeps.record {s t : State V W E} (h : Keeps s t) {e : Event V W E} (he : e.isFn = false) :
    Keeps s (t.record e) := by
  obtain ⟨l, hl, hno⟩ := h.log
  refine ⟨⟨l ++ [e], by simp [State.record, hl], fun e' he' => ?_⟩, h.stage, h.started⟩
  rcases List.mem_append.1 he' with he' | he'
  · exact hno e' he'
  · cases List.mem_singleton.1 he'
    exact he

/-- Before the call of `fn`, and after it. -/
def Called (s : State V W E) : Prop :=
  s.started = true ∧ Obeys Allowed s.log ∧
    ((∀ e ∈ s.log, e.isFn = false) ∨ s.stage ≠ .firstStage)

theorem Called.keep {s t : State V W E} (h : Called s) (hk : Keeps s t) : Called t := by
  obtain ⟨l, hl, hno⟩ := hk.log
  refine ⟨hk.started.trans h.1, ?_, ?_⟩
  · rw [hl]
    clear hl
    induction l using List.reverseRecOn with
    | nil => simpa using h.2.1
    | append_singleton l e ih =>
      rw [← List.append_assoc]
      refine (ih fun e he => hno e (List.mem_append_left _ he)).append ?_
      have he := hno e (List.mem_append_right _ (List.mem_singleton_self e))
      cases e with
      | fn x => cases he
      | _ => trivial
  · rcases h.2.2 with hfresh | hst
    · left
      rw [hl]
      intro e he
      rcases List.mem_append.1 he with he | he
      · exact hfresh e he
      · exact hno e he
    · exact .inr fun hs => hst (hk.stage hs)

/-! ### What the functions do -/

theorem keeps_stage (s : State V W E) (stage : Stage W E) (h : stage ≠ .firstStage) :
    Keeps s { s with stage := stage } :=
  ⟨⟨[], by simp, by simp⟩, fun hs => absurd hs h, rfl⟩

theorem keeps_awaitResume {s t : State V W E} (h : s.awaitResume = .ok t) : Keeps s t := by
  have hnone : Keeps s { s with stage := .none } := keeps_stage s .none (by simp)
  unfold State.awaitResume at h
  split at h
  · cases h
    exact hnone.record rfl
  · rename_i a ha
    have htaken : Keeps s ({ s with stage := .none }.record (.resumedSecond a.result)) :=
      hnone.record rfl
    cases hr : a.result with
    | ok w =>
      simp only [hr] at h htaken
      cases h
      exact htaken.record rfl
    | error e =>
      simp only [hr] at h htaken
      cases h
      exact htaken.record rfl
  · cases h

theorem keeps_mustResume (s : State V W E) : Keeps s s.mustResume.2 := by
  unfold State.mustResume
  split
  · exact Keeps.refl s
  · rename_i a ha
    have hasked : Keeps s (s.record (.mustResume .second a.mustResume)) := (Keeps.refl s).record rfl
    dsimp only
    split_ifs
    · exact hasked
    · exact hasked.trans (keeps_stage _ _ (by simp))
  · exact Keeps.refl s

theorem keeps_resumeParent {s t : State V W E} (h : s.resumeParent = .ok t) : Keeps s t := by
  unfold State.resumeParent at h
  split_ifs at h
  · have hmust := keeps_mustResume s
    dsimp only at h
    split_ifs at h
    · exact hmust.trans (keeps_awaitResume h)
    · cases h
      exact hmust.record rfl
  · exact keeps_awaitResume h

theorem keeps_beginSecond {s t : State V W E} {a : Awaiter W E} (h : s.beginSecond a = .ok t) :
    Keeps s t := by
  have hready : Keeps s (s.record (.ready .second a.ready)) := (Keeps.refl s).record rfl
  unfold State.beginSecond at h
  dsimp only at h
  split_ifs at h
  · exact hready.trans (keeps_resumeParent h)
  · cases h
    exact hready.trans (((Keeps.refl _).record (e := .suspend .second) rfl).trans
      ⟨⟨[], by simp [State.suspend, State.record], by simp⟩, id, rfl⟩)

theorem keeps_fnReturns {s t : State V W E} {x : V} (h : s.fnReturns fn x = .ok t) : Keeps s t := by
  have hback : Keeps s { s with calling := none } := ⟨⟨[], by simp, by simp⟩, id, rfl⟩
  unfold State.fnReturns at h
  dsimp only at h
  split at h
  · rename_i e he
    have hthrew := (hback.record (e := .fnThrew e) rfl).trans
      (keeps_stage _ (.exception e) (by simp))
    exact hthrew.trans (keeps_resumeParent h)
  · rename_i a ha
    have hsecond := hback.trans (keeps_stage _ (.secondStage a) (by simp))
    split_ifs at h
    · exact (hsecond.record rfl).trans ((keeps_stage _ _ (by simp)).trans (keeps_resumeParent h))
    · exact (hsecond.record rfl).trans (keeps_beginSecond h)
    · exact hsecond.trans (keeps_beginSecond h)

theorem keeps_awaitCancel (s : State V W E) (entering : Bool) :
    Keeps s (s.awaitCancel entering) := by
  have hasked : ∀ (i : Which), Keeps s ({ s with
      cancelling := true
      pause := some (.cancelling entering) }.record (.cancel i)) := by
    intro i
    exact ((Keeps.refl s).record (e := .cancel i) rfl).trans
      ⟨⟨[], by simp [State.record], by simp⟩, id, rfl⟩
  unfold State.awaitCancel
  dsimp only
  split
  · exact hasked .first
  · exact hasked .second
  · exact ⟨⟨[], by simp, by simp⟩, id, rfl⟩

theorem keeps_cancel {s t : State V W E} (h : s.cancel = .ok t) : Keeps s t := by
  have hasked : Keeps s ({ s with afterCancel := true }.record .requested) :=
    ((Keeps.refl s).record (e := .requested) rfl).trans
      ⟨⟨[], by simp [State.record], by simp⟩, id, rfl⟩
  unfold State.cancel at h
  dsimp only at h
  split at h
  · cases h
    exact hasked.trans (keeps_awaitCancel _ _)
  · cases h
    exact hasked.trans (keeps_awaitCancel _ _)
  · cases h

/-! ### The call of `fn` -/

theorem called_finishFirst {s t : State V W E} (h : s.finishFirst first = .ok t) (hs : Called s) :
    Called t := by
  unfold State.finishFirst at h
  split at h
  · rename_i hstage
    have hfresh : ∀ e ∈ s.log, e.isFn = false := by
      rcases hs.2.2 with hfresh | hno
      · exact hfresh
      · exact absurd hstage hno
    have htaken : Called (s.record (.resumedFirst first.result)) :=
      hs.keep ((Keeps.refl s).record rfl)
    cases hr : first.result with
    | ok x =>
      simp only [hr] at h htaken
      cases h
      have hallowed : Allowed (s.record (.resumedFirst (.ok x))).log (.fn x) := by
        refine ⟨by simp [State.record], fun e he => ?_⟩
        rcases List.mem_append.1 he with he | he
        · exact hfresh e he
        · cases List.mem_singleton.1 he
          rfl
      exact ⟨hs.1, htaken.2.1.append hallowed, .inr (by simp [State.record])⟩
    | error e =>
      simp only [hr] at h htaken
      exact htaken.keep ((keeps_stage _ _ (by simp)).trans (keeps_resumeParent h))
  · cases h

theorem called_kickOffSecond {s t : State V W E} (h : s.kickOffSecond first = .ok t) (hs : Called s) :
    Called t := by
  unfold State.kickOffSecond at h
  dsimp only at h
  have hmust := (Keeps.refl s).record (e := .mustResume .first first.mustResume) rfl
  split_ifs at h
  · exact called_finishFirst h (hs.keep hmust)
  · exact hs.keep (hmust.trans (keeps_resumeParent h))
  · exact called_finishFirst h hs

theorem called_awaitSuspend {s t : State V W E} (h : s.awaitSuspend first = .ok t)
    (hs : Called s) : Called t := by
  unfold State.awaitSuspend at h
  dsimp only at h
  have hready := (Keeps.refl s).record (e := .ready .first first.ready) rfl
  split_ifs at h
  · exact called_kickOffSecond h (hs.keep hready)
  · cases h
    have hsuspend := hready.record (e := .suspend .first) rfl
    exact hs.keep (hsuspend.trans ⟨⟨[], by simp [State.suspend, State.record], by simp⟩, id, rfl⟩)

theorem setExecutor_eq {s t : State V W E} (h : s.setExecutor = .ok t) :
    t.log = s.log ∧ t.started = s.started := by
  unfold State.setExecutor at h
  split at h
  · cases h
    exact ⟨rfl, rfl⟩
  · cases h
    exact ⟨rfl, rfl⟩
  · cases h

theorem called_hookAwaitSuspend {t : State V W E} {early : Bool}
    (h : State.hookAwaitSuspend first { State.init with started := true } early = .ok t) :
    Called t := by
  have hs : Called ({ State.init with started := true } : State V W E) :=
    ⟨rfl, obeys_nil, .inl (by simp [State.init])⟩
  have hfresh : ∀ {s u : State V W E}, s.setExecutor = .ok u → s.started = true →
      Obeys Allowed s.log → (∀ e ∈ s.log, e.isFn = false) → Called u := by
    intro s u hu hstarted hobeys hno
    obtain ⟨hl, hst⟩ := setExecutor_eq hu
    refine ⟨hst.trans hstarted, ?_, .inl ?_⟩
    · rw [hl]
      exact hobeys
    · rw [hl]
      exact hno
  unfold State.hookAwaitSuspend at h
  split_ifs at h
  · have hasked : Keeps ({ State.init with started := true } : State V W E)
        ({ State.init with started := true }.awaitEarlyCancel first).2 :=
      ((Keeps.refl _).record (e := .earlyCancel .first first.earlyCancel) rfl).trans
        ⟨⟨[], by simp [State.awaitEarlyCancel, State.record], by simp⟩, id, rfl⟩
    dsimp only at h
    split_ifs at h
    · cases h
      exact hs.keep (hasked.record rfl)
    · obtain ⟨u, hu, hsuspend⟩ := bind_eq_ok.1 h
      refine called_awaitSuspend hsuspend (hfresh hu rfl (hs.keep hasked).2.1 ?_)
      simp [State.awaitEarlyCancel, State.record, State.init, Event.isFn]
  · obtain ⟨u, hu, hsuspend⟩ := bind_eq_ok.1 h
    exact called_awaitSuspend hsuspend (hfresh hu rfl obeys_nil (by simp [State.init]))

/-- A step of a co_await that has begun. -/
theorem called_step {s t : State V W E} {a : Action E} (h : step first fn s a = .ok t)
    (hs : Called s) : Called t := by
  have hpause : ∀ p : Option Pause, Keeps s { s with pause := p } := fun p =>
    ⟨⟨[], by simp, by simp⟩, id, rfl⟩
  cases a with
  | start early => simp [step, hs.1] at h
  | suspendReturns =>
    simp only [step] at h
    split at h
    · cases h
      exact hs
    · cases h
  | suspendThrows e =>
    simp only [step] at h
    split at h
    · unfold State.suspendThrows at h
      dsimp only at h
      split at h
      · cases h
        exact hs.keep (((hpause none).record rfl).record rfl)
      · cases h
        have hthrew := ((hpause none).record (e := .suspendThrew .second e) rfl).record
          (e := .terminated) rfl
        exact hs.keep (hthrew.trans ⟨⟨[], by simp [State.record], by simp⟩, id, rfl⟩)
      · cases h
    · cases h
  | resumes =>
    simp only [step] at h
    split at h
    · unfold State.resumes at h
      dsimp only at h
      split at h
      · exact called_kickOffSecond h (hs.keep (hpause none))
      · exact hs.keep ((hpause none).trans (keeps_resumeParent h))
    · cases h
  | cancel =>
    simp only [step] at h
    split_ifs at h
    exact hs.keep (keeps_cancel h)
  | cancelReturns done =>
    simp only [step] at h
    split at h
    · split_ifs at h
      · cases h
        exact hs.keep ((hpause none).record rfl)
      · cases h
        exact hs.keep (hpause _)
    · cases h
  | fnReturns =>
    simp only [step] at h
    split at h
    · exact hs.keep (keeps_fnReturns h)
    · cases h

theorem called_of_reach {s : State V W E} (h : Reach (step first fn) anyAction .init s) :
    s = .init ∨ Called s := by
  refine h.invariant (I := fun s => s = .init ∨ Called s) (.inl rfl) fun s a t hs _ hst => .inr ?_
  rcases hs with rfl | hs
  · cases a with
    | start early => exact called_hookAwaitSuspend hst
    | _ => cases hst
  · exact called_step hst hs

theorem calls_of_reach {s : State V W E} (h : Reach (step first fn) anyAction .init s) :
    s.log.countP Event.isFn ≤ 1 ∧ ∀ x, .fn x ∈ s.log → .resumedFirst (.ok x) ∈ s.log := by
  have hobeys : Obeys Allowed s.log := by
    rcases called_of_reach h with rfl | hs
    · exact obeys_nil
    · exact hs.2.1
  refine ⟨hobeys.countP_le_one fun l e he hfn e' he' => ?_, fun x hx => ?_⟩
  · cases e with
    | fn x => exact he.2 e' he'
    | _ => cases hfn
  · obtain ⟨before, after, heq⟩ := List.append_of_mem hx
    rw [heq]
    exact List.mem_append_left _ (hobeys before (.fn x) after heq).1

end Corral.Sequence
