import Corral.Sequence.Model

/-!
# `Sequence`: where exceptions go

`kickOffSecond()` is `noexcept`, and calls `await_suspend()` of the second awaiter outside its try
block.

* `Told`: what the log of a co_await looks like that is over;
* `Place`: the places at which a run may stand;
* `exceptions_delivered`: an exception is delivered to the task, unless it comes from
  `await_suspend()` of the second awaiter; then the program is terminated.
-/

namespace Corral.Sequence

open ActionMachine

variable {V W E : Type*} {first : Awaiter V E} {fn : V → Except E (Awaiter W E)}

/-- The exception that is thrown here. -/
def Event.thrown : Event V W E → Option E
  | .suspendThrew _ e => some e
  | .resumedFirst (.error e) => some e
  | .resumedSecond (.error e) => some e
  | .fnThrew e => some e
  | _ => none

/-- Nothing is over with this event. -/
def Event.goesOn : Event V W E → Bool
  | .outcome _ => false
  | .terminated => false
  | ev => ev.thrown.isNone

/-- No exception has been thrown, and the co_await is not over. -/
def Quiet (l : List (Event V W E)) : Prop := ∀ ev ∈ l, ev.goesOn = true

theorem Quiet.append {l : List (Event V W E)} (h : Quiet l) (ev : Event V W E)
    (hev : ev.goesOn = true) : Quiet (l ++ [ev]) := by
  intro ev' hev'
  rcases List.mem_append.1 hev' with hold | hlast
  · exact h ev' hold
  · cases List.mem_singleton.1 hlast
    exact hev

/-- The end of a co_await: a value or cancellation; an exception that is delivered; or an exception of
the second `await_suspend()`. -/
inductive Told : List (Event V W E) → Prop
  | outcome (l : List (Event V W E)) (r : Result W E) : Quiet l → (∀ e, r ≠ .threw e) →
      Told (l ++ [.outcome r])
  | threw (l : List (Event V W E)) (ev : Event V W E) (e : E) : Quiet l → ev.thrown = some e →
      (∀ e', ev ≠ .suspendThrew .second e') → Told (l ++ [ev] ++ [.outcome (.threw e)])
  | terminated (l : List (Event V W E)) (e : E) : Quiet l →
      Told (l ++ [.suspendThrew .second e] ++ [.terminated])

/-- Where a run stands. -/
inductive Place : State V W E → Prop
  | initial : Place .init
  | first (k : Bool) (p : Pause) (l : List (Event V W E)) : Quiet l →
      Place ⟨.firstStage, k, k, some p, none, true, false, l⟩
  | fn (x : V) (k : Bool) (l : List (Event V W E)) : Quiet l →
      Place ⟨.none, k, k, none, some x, true, false, l⟩
  | second (a : Awaiter W E) (k : Bool) (p : Pause) (l : List (Event V W E)) : Quiet l →
      Place ⟨.secondStage a, k, k, some p, none, true, false, l⟩
  | done (stage : Stage W E) (k k' t : Bool) (l : List (Event V W E)) : Told l →
      Place ⟨stage, k, k', none, none, true, t, l⟩

/-- If there is a next state, a run may stand there. -/
inductive Leads : Except Fault (State V W E) → Prop
  | ok {s : State V W E} : Place s → Leads (.ok s)
  | error (e : Fault) : Leads (.error e)

/-! ### The functions -/

/-- An exception that is stored is delivered. -/
theorem leads_exception (k : Bool) {l : List (Event V W E)} {ev : Event V W E} {e : E} (hl : Quiet l)
    (hev : ev.thrown = some e) (hne : ∀ e', ev ≠ .suspendThrew .second e') :
    Leads (State.resumeParent ⟨.exception e, k, k, none, none, true, false, l ++ [ev]⟩) := by
  cases k with
  | false => exact .ok (.done _ _ _ _ _ (.threw l ev e hl hev hne))
  | true => exact .ok (.done _ _ _ _ _ (.threw l ev e hl hev hne))

theorem leads_finishFirst (k : Bool) {l : List (Event V W E)} (hl : Quiet l) :
    Leads (State.finishFirst first ⟨.firstStage, k, k, none, none, true, false, l⟩) := by
  obtain ⟨ans, result⟩ := first
  cases result with
  | ok x =>
    have hl₁ := hl.append (.resumedFirst (.ok x)) rfl
    exact .ok (.fn x k _ (hl₁.append _ rfl))
  | error e => exact leads_exception k hl rfl fun e' h => by cases h

theorem leads_kickOffSecond (k : Bool) {l : List (Event V W E)} (hl : Quiet l) :
    Leads (State.kickOffSecond first ⟨.firstStage, k, k, none, none, true, false, l⟩) := by
  cases k with
  | false => exact leads_finishFirst false hl
  | true =>
    have hl₁ := hl.append (.mustResume .first first.mustResume) rfl
    have hfinish := @leads_finishFirst V W E first true _ hl₁
    obtain ⟨⟨early, ready, must⟩, result⟩ := first
    cases must with
    | true => exact hfinish
    | false => exact .ok (.done _ _ _ _ _ (.outcome _ _ hl₁ fun e h => by cases h))

/-- The second awaiter is ready, or has resumed the handle. -/
theorem leads_resumeParent (a : Awaiter W E) (k : Bool) {l : List (Event V W E)} (hl : Quiet l) :
    Leads (State.resumeParent ⟨.secondStage a, k, k, none, none, true, false, l⟩) := by
  have hresult : ∀ {l : List (Event V W E)}, Quiet l →
      Leads (State.awaitResume ⟨.secondStage a, k, k, none, none, true, false, l⟩) := by
    intro l hl
    obtain ⟨ans, result⟩ := a
    cases result with
    | ok w =>
      have hl₁ := hl.append (.resumedSecond (.ok w)) rfl
      exact .ok (.done _ _ _ _ _ (.outcome _ _ hl₁ fun e h => by cases h))
    | error e => exact .ok (.done _ _ _ _ _ (.threw l _ e hl rfl fun e' h => by cases h))
  cases k with
  | false => exact hresult hl
  | true =>
    have hl₁ := hl.append (.mustResume .second a.mustResume) rfl
    have h := hresult hl₁
    obtain ⟨⟨early, ready, must⟩, result⟩ := a
    cases must with
    | true => exact h
    | false => exact .ok (.done _ _ _ _ _ (.outcome _ _ hl₁ fun e h => by cases h))

theorem leads_beginSecond (a : Awaiter W E) (k : Bool) {l : List (Event V W E)} (hl : Quiet l) :
    Leads (State.beginSecond ⟨.secondStage a, k, k, none, none, true, false, l⟩ a) := by
  have hl₁ := hl.append (.ready .second a.ready) rfl
  have hresume := leads_resumeParent a k hl₁
  obtain ⟨⟨early, ready, must⟩, result⟩ := a
  cases ready with
  | true => exact hresume
  | false => exact .ok (.second _ k _ _ (hl₁.append _ rfl))

theorem leads_fnReturns (x : V) (k : Bool) {l : List (Event V W E)} (hl : Quiet l) :
    Leads (State.fnReturns fn ⟨.none, k, k, none, some x, true, false, l⟩ x) := by
  unfold State.fnReturns
  cases hf : fn x with
  | error e => exact leads_exception k hl rfl fun e' h => by cases h
  | ok a =>
    cases k with
    | false => exact leads_beginSecond a false hl
    | true =>
      have hl₁ := hl.append (.earlyCancel .second a.earlyCancel) rfl
      have hbegin := leads_beginSecond a true hl₁
      obtain ⟨⟨early, ready, must⟩, result⟩ := a
      cases early with
      | true => exact .ok (.done _ _ _ _ _ (.outcome _ _ hl₁ fun e h => by cases h))
      | false => exact hbegin

theorem leads_awaitSuspend (k : Bool) {l : List (Event V W E)} (hl : Quiet l) :
    Leads (State.awaitSuspend first ⟨.firstStage, k, k, none, none, true, false, l⟩) := by
  have hl₁ := hl.append (.ready .first first.ready) rfl
  have hkick := @leads_kickOffSecond V W E first k _ hl₁
  obtain ⟨⟨early, ready, must⟩, result⟩ := first
  cases ready with
  | true => exact hkick
  | false => exact .ok (.first k _ _ (hl₁.append _ rfl))

theorem leads_hookAwaitSuspend (early : Bool) :
    Leads (State.hookAwaitSuspend first
      ({ State.init with started := true } : State V W E) early) := by
  have hnil : Quiet ([] : List (Event V W E)) := fun ev hev => by cases hev
  cases early with
  | false => exact leads_awaitSuspend false hnil
  | true =>
    have hl₁ := hnil.append (.earlyCancel .first first.earlyCancel) rfl
    have hsuspend := @leads_awaitSuspend V W E first true _ hl₁
    obtain ⟨⟨early, ready, must⟩, result⟩ := first
    cases early with
    | true => exact .ok (.done _ _ _ _ _ (.outcome _ _ hl₁ fun e h => by cases h))
    | false => exact hsuspend

/-! ### The steps -/

/-- An awaiter is suspended. -/
theorem leads_step_first {k : Bool} {p : Pause} {l : List (Event V W E)} (hl : Quiet l)
    (a : Action E) : Leads (step first fn ⟨.firstStage, k, k, some p, none, true, false, l⟩ a) := by
  cases a with
  | start early => exact .error _
  | fnReturns => exact .error _
  | resumes => exact leads_kickOffSecond k hl
  | suspendReturns =>
    cases p with
    | cancelling entering => exact .error _
    | suspended entering =>
      cases entering with
      | true => exact .ok (.first k _ l hl)
      | false => exact .error _
  | suspendThrows e =>
    cases p with
    | cancelling entering => exact .error _
    | suspended entering =>
      cases entering with
      | true => exact .ok (.done _ _ _ _ _ (.threw l _ e hl rfl fun e' h => by cases h))
      | false => exact .error _
  | cancel =>
    cases k with
    | true => exact .error _
    | false =>
      cases p with
      | cancelling entering => exact .error _
      | suspended entering =>
        have hl₁ := hl.append .requested rfl
        exact .ok (.first true _ _ (hl₁.append _ rfl))
  | cancelReturns done =>
    cases p with
    | suspended entering => exact .error _
    | cancelling entering =>
      cases done with
      | true => exact .ok (.done _ _ _ _ _ (.outcome l _ hl fun e h => by cases h))
      | false => exact .ok (.first k _ l hl)

theorem leads_step_second {b : Awaiter W E} {k : Bool} {p : Pause} {l : List (Event V W E)}
    (hl : Quiet l) (a : Action E) :
    Leads (step first fn ⟨.secondStage b, k, k, some p, none, true, false, l⟩ a) := by
  cases a with
  | start early => exact .error _
  | fnReturns => exact .error _
  | resumes => exact leads_resumeParent b k hl
  | suspendReturns =>
    cases p with
    | cancelling entering => exact .error _
    | suspended entering =>
      cases entering with
      | true => exact .ok (.second b k _ l hl)
      | false => exact .error _
  | suspendThrows e =>
    cases p with
    | cancelling entering => exact .error _
    | suspended entering =>
      cases entering with
      | true => exact .ok (.done _ _ _ _ _ (.terminated l e hl))
      | false => exact .error _
  | cancel =>
    cases k with
    | true => exact .error _
    | false =>
      cases p with
      | cancelling entering => exact .error _
      | suspended entering =>
        have hl₁ := hl.append .requested rfl
        exact .ok (.second b true _ _ (hl₁.append _ rfl))
  | cancelReturns done =>
    cases p with
    | suspended entering => exact .error _
    | cancelling entering =>
      cases done with
      | true => exact .ok (.done _ _ _ _ _ (.outcome l _ hl fun e h => by cases h))
      | false => exact .ok (.second b k _ l hl)

theorem leads_step {s : State V W E} (h : Place s) (a : Action E) : Leads (step first fn s a) := by
  cases h with
  | initial =>
    cases a with
    | start early => exact leads_hookAwaitSuspend early
    | _ => exact .error _
  | first k p l hl => exact leads_step_first hl a
  | second b k p l hl => exact leads_step_second hl a
  | fn x k l hl =>
    cases a with
    | fnReturns => exact leads_fnReturns x k hl
    | cancel =>
      cases k with
      | true => exact .error _
      | false => exact .ok (.fn x true _ (hl.append _ rfl))
    | _ => exact .error _
  | done stage k k' t l hl =>
    cases a with
    | cancel =>
      cases k with
      | true => exact .error _
      | false => exact .error _
    | _ => exact .error _

theorem place_of_reach {s : State V W E} (h : Reach (step first fn) anyAction .init s) :
    Place s := by
  refine h.invariant .initial fun s a t hs _ hst => ?_
  have hleads := @leads_step V W E first fn s hs a
  rw [hst] at hleads
  cases hleads with
  | ok ht => exact ht

/-! ### Exceptions -/

theorem Quiet.not_thrown {l : List (Event V W E)} (h : Quiet l) {ev : Event V W E} {e : E}
    (he : ev.thrown = some e) : ev ∉ l := by
  intro hev
  have hgo := h ev hev
  cases ev with
  | outcome r => cases he
  | terminated => cases he
  | _ => simp [Event.goesOn, he] at hgo

/-- An exception that is thrown in a run, at whatever point, is what the co_await ends with, and the
program is not terminated, exactly if it does not come from `await_suspend()` of the second awaiter. -/
theorem exceptions_delivered {s : State V W E} (h : Reach (step first fn) anyAction .init s)
    {ev : Event V W E} {e : E} (hev : ev ∈ s.log) (he : ev.thrown = some e) :
    (.outcome (.threw e) ∈ s.log ∧ .terminated ∉ s.log) ↔
      ∀ e', ev ≠ .suspendThrew .second e' := by
  have hquiet : ∀ {l : List (Event V W E)}, Quiet l → ev ∈ l → False := fun hl hm =>
    hl.not_thrown he hm
  have hno : ∀ {l : List (Event V W E)}, Quiet l → .terminated ∉ l := fun hl hm => by
    cases hl _ hm
  cases place_of_reach h with
  | initial => cases hev
  | first k p l hl => exact absurd hev (hquiet hl)
  | fn x k l hl => exact absurd hev (hquiet hl)
  | second b k p l hl => exact absurd hev (hquiet hl)
  | done stage k k' t l hl =>
    cases hl with
    | outcome l r hl hr =>
      rcases List.mem_append.1 hev with hold | hlast
      · exact absurd hold (hquiet hl)
      · cases List.mem_singleton.1 hlast
        cases he
    | threw l ev' e' hl he' hne =>
      have heq : ev = ev' := by
        rcases List.mem_append.1 hev with hold | hlast
        · rcases List.mem_append.1 hold with hold | hlast
          · exact absurd hold (hquiet hl)
          · exact List.mem_singleton.1 hlast
        · cases List.mem_singleton.1 hlast
          cases he
      subst heq
      cases he.symm.trans he'
      refine iff_of_true ⟨by simp, ?_⟩ hne
      have hev' : Event.terminated ≠ ev := by
        rintro rfl
        cases he
      simp [hno hl, hev']
    | terminated l e' hl =>
      have heq : ev = .suspendThrew .second e' := by
        rcases List.mem_append.1 hev with hold | hlast
        · rcases List.mem_append.1 hold with hold | hlast
          · exact absurd hold (hquiet hl)
          · exact List.mem_singleton.1 hlast
        · cases List.mem_singleton.1 hlast
          cases he
      refine iff_of_false (fun h => h.2 (by simp)) fun h => h e' heq

/-- `fn` throws. -/
theorem exceptions_delivered_fn :
    ∃ s : State ℕ ℕ ℕ, Reach (step ⟨⟨false, true, true⟩, .ok 0⟩ fun _ => .error 7) anyAction .init s ∧
      .outcome (.threw 7) ∈ s.log ∧ .terminated ∉ s.log := by
  have h : Reach (step ⟨⟨false, true, true⟩, .ok 0⟩ fun _ => .error 7) anyAction
      (.init : State ℕ ℕ ℕ) _ := reach_of_run (l := [.start false, .fnReturns]) rfl
  have hmem : Event.fnThrew 7 ∈ [Event.ready .first true, .resumedFirst (.ok 0), .fn 0, .fnThrew 7,
      (.outcome (.threw 7) : Event ℕ ℕ ℕ)] := by decide
  exact ⟨_, h, (exceptions_delivered h hmem rfl).2 fun e' he => by cases he⟩

/-- The second awaiter throws out of `await_suspend()`. -/
theorem terminated_of_second :
    ∃ s : State ℕ ℕ ℕ, Reach (step ⟨⟨false, true, true⟩, .ok 0⟩
        fun _ => .ok ⟨⟨false, false, true⟩, .ok 1⟩) anyAction .init s ∧
      .suspendThrew .second 7 ∈ s.log ∧ .terminated ∈ s.log ∧ .outcome (.threw 7) ∉ s.log := by
  have h : Reach (step ⟨⟨false, true, true⟩, .ok 0⟩ fun _ => .ok ⟨⟨false, false, true⟩, .ok 1⟩)
      anyAction (.init : State ℕ ℕ ℕ) _ :=
    reach_of_run (l := [.start false, .fnReturns, .suspendThrows 7]) rfl
  exact ⟨_, h, by decide, by decide, by decide⟩

end Corral.Sequence
