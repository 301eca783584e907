import Corral.TryBlock.Order

/-!
# `TryBlock`: what the parent is told

The outcome is kept in `completed_`, `exception_` and `exceptionHandled_`.  A handler that has been
cancelled stores nothing; so the block still holds the exception of the body, and it depends on the
handler whether the exception counts as handled: `dispatchException()` says so before it calls a
typed handler, and not when it calls an `Ellipsis`.

* `cancelled_handler`: after a handler that has been cancelled, the exception is rethrown exactly if
  the handler is an `Ellipsis`;
* `finally_throws`: what an exception of the finally clause leads to.
-/

namespace Corral.TryBlock

open ActionMachine AwaiterStateChecker History

variable {Exn : Type*} {b : Block Exn} {s t : State Exn}

/-! ### Handlers that have ended -/

/-- A handler is called for an exception of the body, and is the first one that matches. -/
theorem matched_of_ended {l : List (Event Exn)} (h : Obeys (Allowed b) l) {i : ℕ} {r : Result Exn}
    (hi : .ended (.handler i) r ∈ l) : ∃ e, .ended .body (.threw e) ∈ l ∧ FirstMatch b e i := by
  obtain ⟨before, after, rfl, ha⟩ := allowed_of_mem h (started_of_ended h hi)
  obtain ⟨-, -, e, he, hm⟩ := ha
  exact ⟨e, List.mem_append_left _ he, hm⟩

theorem ended_handler_unique {l : List (Event Exn)} (h : Obeys (Allowed b) l) {i j : ℕ}
    {r r' : Result Exn} (hi : .ended (.handler i) r ∈ l) (hj : .ended (.handler j) r' ∈ l) :
    i = j ∧ r = r' := by
  obtain ⟨e, he, hm⟩ := matched_of_ended h hi
  obtain ⟨e', he', hm'⟩ := matched_of_ended h hj
  cases ended_unique h he he'
  cases firstMatch_unique hm hm'
  exact ⟨rfl, ended_unique h hi hj⟩

section Handlers

variable {l : List (Event Exn)} {completed handled : Bool} {exception : Option Exn}

/-- What a handler leaves that has been cancelled. -/
theorem Left.of_cancelled (hl : Left b l completed exception handled) (h : Obeys (Allowed b) l)
    {i : ℕ} (hi : .ended (.handler i) .cancelled ∈ l) :
    completed = false ∧ exception.isSome = true ∧ handled = isTyped b i := by
  obtain ⟨e, he, hm⟩ := matched_of_ended h hi
  cases hl with
  | value hv => cases ended_unique h he hv
  | cancelled hc => cases ended_unique h he hc
  | unmatched e' he' hno =>
    cases ended_unique h he he'
    exact absurd hm (hno i)
  | handled e' j he' hm' hj => cases (ended_handler_unique h hi hj).2
  | replaced e' e'' j he' hm' hj => cases (ended_handler_unique h hi hj).2
  | interrupted e' j he' hm' hj =>
    cases (ended_handler_unique h hi hj).1
    exact ⟨rfl, rfl, rfl⟩

/-- If an exception is left that counts as handled, its handler has been cancelled. -/
theorem Left.cancelled_of_handled (hl : Left b l completed exception handled)
    (hx : exception.isSome = true) (hh : handled = true) :
    ∃ i, .ended (.handler i) .cancelled ∈ l ∧ isTyped b i = true := by
  cases hl with
  | interrupted e i he hm hi => exact ⟨i, hi, hh⟩
  | value hv => cases hx
  | cancelled hc => cases hx
  | handled e i he hm hi => cases hx
  | unmatched e he hno => cases hh
  | replaced e e' i he hm hi => cases hh

end Handlers

/-! ### A handler is cancelled -/

/-- After a handler has been cancelled, and the finally clause, if there is one, has not thrown, the
parent is not told of an exception exactly if the handler is a typed one. -/
theorem cancelled_handler (h : Reach (step b) anyAction .init t) {i : ℕ}
    (hi : .ended (.handler i) .cancelled ∈ t.history)
    (hf : ∀ e, .ended .cleanup (.threw e) ∉ t.history) (hr : .resumed ∈ t.history) :
    (t.mustResume = false ∧ ∀ e, t.result ≠ .threw e) ↔ isTyped b i = true := by
  cases where_of_reach h with
  | idle hl =>
    rw [hl] at hr
    cases hr
  | running c hrun => exact absurd hr hrun.waiting
  | terminated hterm hmem hobeys =>
    obtain ⟨before, after, heq, e, he⟩ := allowed_of_mem hobeys hmem
    exact absurd (heq ▸ List.mem_append_left _ he) (hf e)
  | finished hcall htask hterm hfresh hstage hres hobeys hset =>
    rcases hset with ⟨hl, -⟩ | ⟨e, he, -⟩
    · obtain ⟨hdone, hx, hh⟩ := hl.of_cancelled hobeys hi
      obtain ⟨e, he⟩ := Option.isSome_iff_exists.1 hx
      simp only [State.mustResume, State.result, hdone, he, hh]
      cases isTyped b i with
      | true => simp
      | false => simp
    · exact absurd he (hf e)

/-- The body throws, and its handler is cancelled. -/
theorem cancelled_handler_typed :
    ∃ t : State ℕ, Reach (step ⟨[.typed (· == 1)], true⟩) anyAction .init t ∧
      t.mustResume = false ∧ ∀ e, t.result ≠ .threw e := by
  have h : Reach (step ⟨[.typed (· == 1)], true⟩) anyAction (.init : State ℕ) _ :=
    reach_of_run (l := [.awaitReady, .awaitSetExecutor, .awaitSuspend, .lambdaThrows 1,
      .lambdaReturns, .awaitCancel, .taskEnds .cancelled, .lambdaReady]) rfl
  have hno : ∀ e : ℕ, Event.ended .cleanup (.threw e) ∉ [Event.started .body,
      .ended .body (.threw 1), .started (.handler 0), .created (.handler 0), .asked (.handler 0),
      .ended (.handler 0) .cancelled, .destroyed (.handler 0), .started .cleanup,
      .ended .cleanup .value, .resumed] := by simp
  exact ⟨_, h, (cancelled_handler (i := 0) h (by decide) hno (by decide)).2 rfl⟩

/-- The `Ellipsis` of this block is cancelled, and the exception of the body is rethrown. -/
theorem rethrown_after_ellipsis :
    ∃ t : State ℕ, Reach (step ⟨[.ellipsis], true⟩) anyAction .init t ∧
      .ended (.handler 0) .cancelled ∈ t.history ∧ .ended .cleanup .value ∈ t.history ∧
      .outcome (.threw 1) ∈ t.history := by
  have h : Reach (step ⟨[.ellipsis], true⟩) anyAction (.init : State ℕ) _ :=
    reach_of_run (l := [.awaitReady, .awaitSetExecutor, .awaitSuspend, .lambdaThrows 1,
      .lambdaReturns, .awaitCancel, .taskEnds .cancelled, .lambdaReady, .awaitMustResume,
      .awaitResume]) rfl
  exact ⟨_, h, by decide, by decide, by decide⟩

/-! ### The finally clause throws -/

/-- The clause throws `e` in this step. -/
def Throws (s : State Exn) (c : Clause) (e : Exn) (a : Action Exn) : Prop :=
  s.calling = some c ∧ a = .lambdaThrows e ∨ s.task.map Pending.clause = some c ∧
    a = .taskEnds (.threw e)

/-- An exception is stored that would be rethrown. -/
def State.inFlight (s : State Exn) : Prop := s.exception.isSome = true ∧ s.exceptionHandled = false

/-- The body has succeeded or has been cancelled, or a handler has. -/
def Quiet (l : List (Event Exn)) : Prop :=
  .ended .body .value ∈ l ∨ .ended .body .cancelled ∈ l ∨
    (∃ i, .ended (.handler i) .value ∈ l) ∨ ∃ i, .ended (.handler i) .cancelled ∈ l

/-- The parent is resumed, and `e` is what it is told. -/
structure Delivered (t : State Exn) (e : Exn) : Prop where
  running : t.terminated = false
  resumed : .resumed ∈ t.history
  mustResume : t.mustResume = true
  result : t.result = .threw e

/-- An exception is left where nothing has succeeded, or a handler has been cancelled. -/
theorem Left.none_of_quiet {l : List (Event Exn)} {completed handled : Bool}
    {exception : Option Exn} (hl : Left b l completed exception handled) (h : Obeys (Allowed b) l)
    (hno : ∀ i, .ended (.handler i) .cancelled ∉ l) (hq : Quiet l) : exception.isSome = false := by
  have hbody : ∀ {e : Exn}, .ended .body (.threw e) ∈ l → ∃ i, .ended (.handler i) .value ∈ l := by
    intro e he
    rcases hq with hv | hc | hv | ⟨i, hi⟩
    · cases ended_unique h he hv
    · cases ended_unique h he hc
    · exact hv
    · exact absurd hi (hno i)
  cases hl with
  | value hv => rfl
  | cancelled hc => rfl
  | handled e i he hm hi => rfl
  | unmatched e he hnone =>
    obtain ⟨i, hi⟩ := hbody he
    obtain ⟨e', he', hm⟩ := matched_of_ended h hi
    cases ended_unique h he he'
    exact absurd hm (hnone i)
  | replaced e e' j he hm hj =>
    obtain ⟨i, hi⟩ := hbody he
    cases (ended_handler_unique h hi hj).2
  | interrupted e i he hm hi => exact absurd hi (hno i)

/-- What an exception of the finally clause leads to. -/
theorem finally_cases (h : Reach (step b) anyAction .init s) {a : Action Exn} {e : Exn}
    (ha : Throws s .cleanup e a) (hs : step b s a = .ok t) :
    Left b s.history s.completed s.exception s.exceptionHandled ∧ Obeys (Allowed b) s.history ∧
      (s.exception.isSome = true → t.terminated = true) ∧
      (s.exception.isSome = false → Delivered t e) := by
  have hw := where_of_reach h
  have hterm : s.terminated = false := by
    by_contra hne
    rw [step_of_terminated (by simpa using hne)] at hs
    cases hs
  have hact : act b s a = .ok t := by
    simpa only [step, hterm, Bool.false_eq_true, if_false] using hs
  obtain ⟨hr, hp, rfl⟩ : Running b s .cleanup ∧ Place b s .cleanup ∧
      t = { s with calling := none }.finish b .cleanup (.threw e) := by
    rcases ha with ⟨hcall, rfl⟩ | ⟨htask, rfl⟩
    · obtain ⟨hr, hp⟩ := hw.running_of_calling hterm hcall
      simp only [act] at hact
      obtain ⟨c, hc, rfl⟩ := onLambda_eq_ok hact
      cases hc.symm.trans hcall
      exact ⟨hr, hp, rfl⟩
    · obtain ⟨k, hk, hclause⟩ := Option.map_eq_some_iff.1 htask
      obtain ⟨hr, hp, hcall, -⟩ := hw.running_of_task hterm hk
      obtain ⟨k', hk', -, rfl⟩ := taskEnds_eq_ok hact
      cases hk'.symm.trans hk
      rw [hclause] at hr hp ⊢
      exact ⟨hr, hp, by rw [← hcall]⟩
  obtain ⟨hb, hended, -⟩ := hr.close (r := .threw e) fun h => by cases h
  cases hp with
  | cleanup hstage hl =>
    refine ⟨hl, hr.obeys, fun hx => ?_, fun hx => ?_⟩
    · rw [finish_terminates ⟨hstage, hx⟩]
    · rw [finish_threw hterm (by simp [hx]), hstage]
      have hb' := hb.set .finallyStage s.completed (some e) false
      have heq : ((s.close .cleanup (.threw e)).set .finallyStage s.completed (some e) false).advance
          b = ((s.close .cleanup (.threw e)).set .finallyStage s.completed (some e)
            false).resumeParent := rfl
      have hresume : ((s.close .cleanup (.threw e)).set .finallyStage s.completed (some e)
          false).resumeParent = _ := if_pos hb'.parent
      rw [heq, hresume]
      refine ⟨hb'.terminated, by simp [State.record], ?_, rfl⟩
      simp [State.mustResume, State.set, State.record]

/-- When the finally clause throws, the program is terminated only for the sake of an exception in
flight, and where the body or a handler has succeeded or has been cancelled the exception of the
finally clause is the outcome: exactly if no handler has been cancelled.  If all that is not in
flight by the fields counts instead, exactly if no typed handler has been cancelled. -/
theorem finally_throws (h : Reach (step b) anyAction .init s) {a : Action Exn} {e : Exn}
    (ha : Throws s .cleanup e a) (hs : step b s a = .ok t) :
    (((t.terminated = true → s.inFlight) ∧ (Quiet s.history → Delivered t e)) ↔
      ∀ i, .ended (.handler i) .cancelled ∉ s.history) ∧
    (((t.terminated = true → s.inFlight) ∧ (¬ s.inFlight → Delivered t e)) ↔
      ∀ i, .ended (.handler i) .cancelled ∈ s.history → isTyped b i = false) := by
  obtain ⟨hl, hobeys, hterm, hdeliver⟩ := finally_cases h ha hs
  have hnot : Delivered t e → s.exception.isSome = false := by
    intro hd
    by_contra hx
    have htrue := hterm (Bool.eq_true_of_not_eq_false hx)
    rw [hd.running] at htrue
    cases htrue
  have hflight : t.terminated = true → s.exception.isSome = true := by
    intro ht
    by_contra hx
    have hfalse := (hdeliver (by simpa using hx)).running
    rw [ht] at hfalse
    cases hfalse
  constructor
  · constructor
    · rintro ⟨-, hq⟩ i hi
      have hx := hnot (hq (.inr (.inr (.inr ⟨i, hi⟩))))
      rw [(hl.of_cancelled hobeys hi).2.1] at hx
      cases hx
    · intro hno
      refine ⟨fun ht => ⟨hflight ht, ?_⟩, fun hq => hdeliver ?_⟩
      · by_contra hh
        obtain ⟨i, hi, -⟩ := hl.cancelled_of_handled (hflight ht) (by simpa using hh)
        exact hno i hi
      · exact hl.none_of_quiet hobeys hno hq
  · constructor
    · rintro ⟨hall, hother⟩ i hi
      obtain ⟨-, hx, hh⟩ := hl.of_cancelled hobeys hi
      rw [← hh]
      exact (hall (hterm hx)).2
    · intro hno
      have hhandled : s.exception.isSome = true → s.exceptionHandled = false := by
        intro hx
        by_contra hh
        obtain ⟨i, hi, htyped⟩ := hl.cancelled_of_handled hx (by simpa using hh)
        rw [hno i hi] at htyped
        cases htyped
      refine ⟨fun ht => ⟨hflight ht, hhandled (hflight ht)⟩, fun hq => hdeliver ?_⟩
      by_contra hx
      have hx' := Bool.eq_true_of_not_eq_false hx
      exact hq ⟨hx', hhandled hx'⟩

/-- The body and then the finally clause throw. -/
theorem finally_throws_twice :
    ∃ s t : State ℕ, Reach (step ⟨[], true⟩) anyAction .init s ∧
      step ⟨[], true⟩ s (.lambdaThrows 2) = .ok t ∧
      (t.terminated = true → s.inFlight) ∧ (Quiet s.history → Delivered t 2) := by
  have h : Reach (step ⟨[], true⟩) anyAction (.init : State ℕ) _ :=
    reach_of_run (l := [.awaitReady, .awaitSetExecutor, .awaitSuspend, .lambdaThrows 1]) rfl
  have hno : ∀ i, Event.ended (.handler i) (Result.cancelled : Result ℕ) ∉
      [Event.started .body, .ended .body (.threw 1), .started .cleanup] := by simp
  exact ⟨_, _, h, rfl, ((finally_throws h (.inl ⟨rfl, rfl⟩) rfl).1).2 hno⟩

/-- A typed handler is cancelled, and the exception of the finally clause terminates the program. -/
theorem terminated_after_cancelled :
    ∃ s t : State ℕ, Reach (step ⟨[.typed (· == 1)], true⟩) anyAction .init s ∧
      step ⟨[.typed (· == 1)], true⟩ s (.lambdaThrows 2) = .ok t ∧
      .ended (.handler 0) .cancelled ∈ s.history ∧ ¬ s.inFlight ∧ t.terminated = true := by
  have h : Reach (step ⟨[.typed (· == 1)], true⟩) anyAction (.init : State ℕ) _ :=
    reach_of_run (l := [.awaitReady, .awaitSetExecutor, .awaitSuspend, .lambdaThrows 1,
      .lambdaReturns, .awaitCancel, .taskEnds .cancelled]) rfl
  exact ⟨_, _, h, rfl, by decide, fun hf => absurd hf.2 (by decide), rfl⟩

end Corral.TryBlock
