import Corral.TryBlock.Stages

/-!
# `TryBlock`: the order of the stages

Every step leads from one place to another (`where_of_step`), so what happens in a run is always
allowed by what has happened before.  At most one handler is called, the first one that matches; a
clause is started when the ones before it are over and their tasks are destroyed; the finally clause
is started once and never cancelled; and the parent is resumed once, when it is over
(`stages_in_order`).
-/

namespace Corral.TryBlock

open ActionMachine AwaiterStateChecker History

variable {Exn : Type*} {b : Block Exn} {s t : State Exn}

/-! ### The steps -/

/-- A step within a clause: the fields are what they were, and no clause is started. -/
structure Keeps (s t : State Exn) : Prop where
  stage : t.stage = s.stage
  completed : t.completed = s.completed
  exception : t.exception = s.exception
  exceptionHandled : t.exceptionHandled = s.exceptionHandled
  old : ∀ e ∈ s.history, e ∈ t.history
  started : ∀ c, .started c ∈ t.history → .started c ∈ s.history

theorem Place.keep {c : Clause} (hp : Place b s c) (hk : Keeps s t) : Place b t c := by
  cases hp with
  | body hstage hdone hx hh honly =>
    exact .body (hk.stage.trans hstage) (hk.completed.trans hdone) (hk.exception.trans hx)
      (hk.exceptionHandled.trans hh) fun c hc => honly c (hk.started c hc)
  | handler e i hstage hdone hx hh hbody hm honly =>
    exact .handler e i (hk.stage.trans hstage) (hk.completed.trans hdone) (hk.exception.trans hx)
      (hk.exceptionHandled.trans hh) (hk.old _ hbody) hm fun c hc => honly c (hk.started c hc)
  | cleanup hstage hl =>
    refine .cleanup (hk.stage.trans hstage) ?_
    rw [hk.completed, hk.exception, hk.exceptionHandled]
    exact hl.mono hk.old

/-- The parent makes a call that does not concern the stages. -/
theorem Running.call {c : Clause} (hr : Running b s c) {ch : Checker}
    (hch : ch.state.suspended = true) (early susp : Bool) :
    Running b { s with checker := ch, earlyCancel := early, suspending := susp } c :=
  ⟨hr.clause, hr.parent, hch, hr.terminated, hr.waiting, hr.started, hr.notEnded, hr.body, hr.past,
    hr.obeys⟩

/-- `task_->cancel()`. -/
theorem Running.cancelTask {c : Clause} (hr : Running b s c) (hp : Place b s c) :
    Running b s.cancelTask c ∧ Keeps s s.cancelTask := by
  have hsame : Keeps s s := ⟨rfl, rfl, rfl, rfl, fun _ h => h, fun _ h => h⟩
  rcases hr.clause with ⟨hcall, htask, -⟩ | ⟨hcall, asked, htask, -⟩
  · have heq : s.cancelTask = s := by simp only [State.cancelTask, htask]
    rw [heq]
    exact ⟨hr, hsame⟩
  · by_cases hf : s.stage = .finallyStage
    · have heq : s.cancelTask = s := by simp only [State.cancelTask, htask, if_pos hf]
      rw [heq]
      exact ⟨hr, hsame⟩
    · have heq : s.cancelTask = { s with task := some ⟨c, true⟩ }.record (.asked c) := by
        simp only [State.cancelTask, htask, if_neg hf]
      have hne : c ≠ .cleanup := by
        rintro rfl
        cases hp with
        | cleanup hstage hl => exact hf hstage
      have hallowed : Allowed b s.history (.asked c) := hne
      rw [heq]
      refine ⟨⟨.inr ⟨hcall, true, rfl, fun _ => by simp [State.record]⟩, hr.parent, hr.checker,
        hr.terminated, by simp [State.record, hr.waiting], List.mem_append_left _ hr.started,
        fun r => by simp [State.record, hr.notEnded r], List.mem_append_left _ hr.body,
        fun c' hc' hcc => ?_, hr.obeys.append hallowed⟩, rfl, rfl, rfl, rfl,
        fun e he => List.mem_append_left _ he, fun c' hc' => by simpa [State.record] using hc'⟩
      have hc'' : .started c' ∈ s.history := by simpa [State.record] using hc'
      exact (hr.past c' hc'' hcc).append (by simp)

/-- The task is in `task_`. -/
def State.create (s : State Exn) (c : Clause) : State Exn :=
  { s with calling := none, task := some ⟨c, false⟩ }.record (.created c)

theorem startTask_eq (s : State Exn) (c : Clause) :
    s.startTask c =
      if s.suspending = true then
        if s.earlyCancel = true then { s.create c with suspending := false }.cancelTask
        else { s.create c with suspending := false }
      else s.create c := rfl

theorem Running.create {c : Clause} (hr : Running b s c) (hp : Place b s c) :
    Running b (s.create c) c ∧ Place b (s.create c) c := by
  have hallowed : Allowed b s.history (.created c) := hr.started
  refine ⟨⟨.inr ⟨rfl, false, rfl, fun h => by cases h⟩, hr.parent, hr.checker, hr.terminated, ?_,
    List.mem_append_left _ hr.started, ?_, List.mem_append_left _ hr.body, ?_,
    hr.obeys.append hallowed⟩, ?_⟩
  · simp [State.create, State.record, hr.waiting]
  · intro r
    simp [State.create, State.record, hr.notEnded r]
  · intro c' hc' hcc
    have hc'' : .started c' ∈ s.history := by simpa [State.create, State.record] using hc'
    exact (hr.past c' hc'' hcc).append (by simpa using fun h => hcc h.symm)
  · exact hp.keep ⟨rfl, rfl, rfl, rfl, fun e he => List.mem_append_left _ he,
      fun c' hc' => by simpa [State.create, State.record] using hc'⟩

/-- The task of a clause is started. -/
theorem Running.startTask {c : Clause} (hr : Running b s c) (hp : Place b s c) :
    Where b (s.startTask c) := by
  obtain ⟨hr', hp'⟩ := hr.create hp
  have hr₁ := hr'.call hr'.checker s.earlyCancel false
  have hp₁ := hp'.keep (t := { s.create c with suspending := false })
    ⟨rfl, rfl, rfl, rfl, fun _ h => h, fun _ h => h⟩
  rw [startTask_eq]
  split_ifs
  · obtain ⟨hr₂, hk⟩ := hr₁.cancelTask hp₁
    exact .running c hr₂ (hp₁.keep hk)
  · exact .running c hr₁ hp₁
  · exact .running c hr' hp'

/-- A call of the parent, which the checker has seen. -/
theorem check_eq_ok {c : Option Checker} (h : s.check c = .ok t) :
    ∃ c', c = some c' ∧ t = { s with checker := c' } := by
  cases c with
  | none => cases h
  | some c' =>
    cases h
    exact ⟨c', rfl, rfl⟩

theorem onLambda_eq_ok {f : State Exn → Clause → State Exn} (h : s.onLambda f = .ok t) :
    ∃ c, s.calling = some c ∧ t = f { s with calling := none } c := by
  unfold State.onLambda at h
  cases hc : s.calling with
  | none =>
    rw [hc] at h
    cases h
  | some c =>
    rw [hc] at h
    cases h
    exact ⟨c, rfl, rfl⟩

theorem taskEnds_eq_ok {r : Result Exn} (h : s.taskEnds b r = .ok t) :
    ∃ k, s.task = some k ∧ (r = .cancelled → k.asked = true) ∧ t = s.finish b k.clause r := by
  unfold State.taskEnds at h
  cases hk : s.task with
  | none =>
    rw [hk] at h
    cases h
  | some k =>
    simp only [hk] at h
    split_ifs at h with hc
    cases h
    refine ⟨k, rfl, ?_, rfl⟩
    rintro rfl
    simpa [Result.isCancelled] using hc

/-- The parent makes a call before it suspends. -/
theorem Where.call (hw : Where b s) (ht : s.terminated = false) {ch : Checker}
    (hs : s.checker.state.suspended = false)
    (hf : ch.state.fresh = true → s.checker.state.fresh = true)
    (hf' : s.checker.state.fresh = true → ch.state.fresh = true) (early : Bool) :
    Where b { s with checker := ch, earlyCancel := early } := by
  cases hw with
  | idle hl hfresh hstage hcall htask hdone hx hh hterm =>
    exact .idle hl (hf' hfresh) hstage hcall htask hdone hx hh hterm
  | running c hr hp =>
    rw [hr.checker] at hs
    cases hs
  | finished hcall htask hterm hfresh hstage hres hobeys hset =>
    refine .finished hcall htask hterm ?_ hstage hres hobeys hset
    by_contra h
    rw [hf (by simpa using h)] at hfresh
    cases hfresh
  | terminated hterm hmem hobeys =>
    rw [hterm] at ht
    cases ht

/-- The parent is told the outcome. -/
theorem Where.outcome (hw : Where b s) (ht : s.terminated = false) {ch : Checker}
    (hold : s.checker.state.told = true) (hf : ch.state.fresh = false) :
    Where b { s with checker := ch } ∧
      ∀ r, Where b ({ s with checker := ch }.record (.outcome r)) := by
  cases hw with
  | idle hl hfresh hstage hcall htask hdone hx hh hterm =>
    rw [(not_told_of_fresh hfresh).1] at hold
    cases hold
  | running c hr hp =>
    rw [(not_fresh_of_suspended hr.checker).2] at hold
    cases hold
  | finished hcall htask hterm hfresh hstage hres hobeys hset =>
    refine ⟨.finished hcall htask hterm hf hstage hres hobeys hset, fun r => ?_⟩
    have hallowed : Allowed b s.history (.outcome r) := hres
    refine .finished hcall htask hterm hf hstage (List.mem_append_left _ hres)
      (hobeys.append hallowed) ?_
    rcases hset with ⟨hl, hno⟩ | ⟨e, he, hx, hh⟩
    · refine .inl ⟨hl.mono fun e he => List.mem_append_left _ he, fun e => ?_⟩
      simp [State.record, hno e]
    · exact .inr ⟨e, List.mem_append_left _ he, hx, hh⟩
  | terminated hterm hmem hobeys =>
    rw [hterm] at ht
    cases ht

/-- The parent suspends. -/
theorem Where.suspend (hw : Where b s) (ht : s.terminated = false) {ch : Checker}
    (hf : s.checker.state.fresh = true) (hs : ch.state.suspended = true) :
    Where b ({ s with checker := ch, parent := true, suspending := true }.invoke .body) := by
  cases hw with
  | idle hl hfresh hstage hcall htask hdone hx hh hterm =>
    have hallowed : Allowed b s.history (.started .body) := hl
    have hobeys : Obeys (Allowed b) s.history := hl ▸ obeys_nil
    refine .running .body ⟨.inl ⟨rfl, htask, ?_⟩, rfl, hs, hterm, ?_, ?_, ?_, ?_, ?_,
      hobeys.append hallowed⟩ (.body hstage hdone hx hh ?_)
    all_goals simp [State.invoke, State.record, hl]
  | running c hr hp =>
    rw [(not_fresh_of_suspended hr.checker).1] at hf
    cases hf
  | finished hcall htask hterm hfresh hstage hres hobeys hset =>
    rw [hfresh] at hf
    cases hf
  | terminated hterm hmem hobeys =>
    rw [hterm] at ht
    cases ht

/-- The parent asks the block to cancel. -/
theorem Where.cancel (hw : Where b s) (ht : s.terminated = false) {ch : Checker}
    (hs : s.checker.state.suspended = true) (hs' : ch.state.suspended = true) :
    Where b { s with checker := ch }.cancelTask := by
  cases hw with
  | idle hl hfresh hstage hcall htask hdone hx hh hterm =>
    rw [(not_told_of_fresh hfresh).2] at hs
    cases hs
  | running c hr hp =>
    have hr₁ := hr.call hs' s.earlyCancel s.suspending
    have hp₁ := hp.keep (t := { s with checker := ch })
      ⟨rfl, rfl, rfl, rfl, fun _ h => h, fun _ h => h⟩
    obtain ⟨hr₂, hk⟩ := hr₁.cancelTask hp₁
    exact .running c hr₂ (hp₁.keep hk)
  | finished hcall htask hterm hfresh hstage hres hobeys hset =>
    have heq : { s with checker := ch }.cancelTask = { s with checker := ch } := by
      simp only [State.cancelTask, htask]
    rw [heq]
    exact .finished hcall htask hterm (not_fresh_of_suspended hs').1 hstage hres hobeys hset
  | terminated hterm hmem hobeys =>
    rw [hterm] at ht
    cases ht

/-- A lambda that has not come back belongs to the clause in progress. -/
theorem Where.running_of_calling (hw : Where b s) (ht : s.terminated = false) {c : Clause}
    (hcall : s.calling = some c) : Running b s c ∧ Place b s c := by
  cases hw with
  | idle hl hfresh hstage hcall' htask hdone hx hh hterm =>
    rw [hcall'] at hcall
    cases hcall
  | running c' hr hp =>
    rcases hr.clause with ⟨hcall', -, -⟩ | ⟨hcall', -⟩
    · cases hcall'.symm.trans hcall
      exact ⟨hr, hp⟩
    · cases hcall'.symm.trans hcall
  | finished hcall' htask hterm hfresh hstage hres hobeys hset =>
    cases hcall'.symm.trans hcall
  | terminated hterm hmem hobeys =>
    rw [hterm] at ht
    cases ht

/-- So does the task. -/
theorem Where.running_of_task (hw : Where b s) (ht : s.terminated = false) {k : Pending}
    (htask : s.task = some k) : Running b s k.clause ∧ Place b s k.clause ∧ s.calling = none ∧
      (k.asked = true → .asked k.clause ∈ s.history) := by
  cases hw with
  | idle hl hfresh hstage hcall htask' hdone hx hh hterm => cases htask'.symm.trans htask
  | running c hr hp =>
    rcases hr.clause with ⟨-, htask', -⟩ | ⟨hcall, asked, htask', hasked⟩
    · cases htask'.symm.trans htask
    · cases htask'.symm.trans htask
      exact ⟨hr, hp, hcall, hasked⟩
  | finished hcall htask' hterm hfresh hstage hres hobeys hset => cases htask'.symm.trans htask
  | terminated hterm hmem hobeys =>
    rw [hterm] at ht
    cases ht

/-- What one step does. -/
theorem where_of_step (hw : Where b s) {a : Action Exn} (h : step b s a = .ok t) : Where b t := by
  unfold step at h
  cases ht : s.terminated with
  | true => simp [ht] at h
  | false =>
  simp only [ht, Bool.false_eq_true, if_false] at h
  cases a with
  | awaitReady =>
    obtain ⟨c, hc, rfl⟩ := check_eq_ok h
    obtain ⟨hf, hf'⟩ := fresh_of_readyReturned hc
    exact hw.call ht (suspended_of_readyReturned hc).1 (fun _ => hf) (fun _ => hf') s.earlyCancel
  | awaitEarlyCancel =>
    obtain ⟨c, hc, rfl⟩ := check_eq_ok h
    obtain ⟨hf, hs⟩ := fresh_of_earlyCancelReturned hc
    exact hw.call ht hs (fun h => hf ▸ h) (fun h => hf.trans h) true
  | awaitSetExecutor =>
    obtain ⟨c, hc, rfl⟩ := check_eq_ok h
    obtain ⟨hst, hs⟩ := state_of_aboutToSetExecutor hc
    exact hw.call ht hs (fun h => hst ▸ h) (fun h => hst ▸ h) s.earlyCancel
  | awaitSuspend =>
    obtain ⟨u, hu, rfl⟩ := map_eq_ok.1 h
    obtain ⟨c, hc, rfl⟩ := check_eq_ok hu
    obtain ⟨hf, hs⟩ := fresh_of_aboutToSuspend hc
    exact hw.suspend ht hf hs
  | lambdaReady =>
    simp only [act] at h
    obtain ⟨c, hcall, rfl⟩ := onLambda_eq_ok h
    obtain ⟨hr, hp⟩ := hw.running_of_calling ht hcall
    exact where_of_finish hr hp fun h => by cases h
  | lambdaThrows e =>
    simp only [act] at h
    obtain ⟨c, hcall, rfl⟩ := onLambda_eq_ok h
    obtain ⟨hr, hp⟩ := hw.running_of_calling ht hcall
    exact where_of_finish hr hp fun h => by cases h
  | lambdaReturns =>
    simp only [act] at h
    obtain ⟨c, hcall, rfl⟩ := onLambda_eq_ok h
    obtain ⟨hr, hp⟩ := hw.running_of_calling ht hcall
    exact hr.startTask hp
  | taskEnds r =>
    obtain ⟨k, hk, hcancel, rfl⟩ := taskEnds_eq_ok h
    obtain ⟨hr, hp, hcall, hasked⟩ := hw.running_of_task ht hk
    have heq : { s with calling := none } = s := by rw [← hcall]
    rw [← heq]
    exact where_of_finish hr hp fun h => hasked (hcancel h)
  | awaitCancel =>
    obtain ⟨u, hu, rfl⟩ := map_eq_ok.1 h
    obtain ⟨c, hc, rfl⟩ := check_eq_ok hu
    obtain ⟨hs, hs'⟩ := suspended_of_aboutToCancel hc
    exact hw.cancel ht hs hs'
  | awaitMustResume =>
    obtain ⟨u, hu, rfl⟩ := map_eq_ok.1 h
    obtain ⟨c, hc, rfl⟩ := check_eq_ok hu
    obtain ⟨h₁, h₂⟩ := hw.outcome ht (told_of_mustResumeReturned hc) (fresh_of_mustResumeReturned hc)
    split_ifs
    · exact h₁
    · exact h₂ _
  | awaitResume =>
    obtain ⟨u, hu, rfl⟩ := map_eq_ok.1 h
    obtain ⟨c, hc, rfl⟩ := check_eq_ok hu
    exact (hw.outcome ht (told_of_aboutToResume hc) (fresh_of_aboutToResume hc)).2 _

theorem step_of_terminated (ht : s.terminated = true) {a : Action Exn} :
    step b s a = .error .protocol := if_pos ht

theorem where_of_reach (h : Reach (step b) anyAction .init t) : Where b t := by
  refine h.invariant (.idle rfl rfl rfl rfl rfl rfl rfl rfl rfl) fun s a t hw _ hs => ?_
  exact where_of_step hw hs

theorem Where.obeys (hw : Where b s) : Obeys (Allowed b) s.history := by
  cases hw with
  | idle hl => exact hl ▸ obeys_nil
  | running c hr hp => exact hr.obeys
  | finished hcall htask hterm hfresh hstage hres hobeys hset => exact hobeys
  | terminated hterm hmem hobeys => exact hobeys

/-! ### The order of the stages -/

def Event.startsHandler : Event Exn → Bool
  | .started (.handler _) => true
  | _ => false

def Event.startsCleanup : Event Exn → Bool
  | .started .cleanup => true
  | _ => false

def Event.resumesParent : Event Exn → Bool
  | .resumed => true
  | _ => false

theorem handlers_le_one {l : List (Event Exn)} (h : Obeys (Allowed b) l) :
    l.countP Event.startsHandler ≤ 1 := by
  refine h.countP_le_one fun l e he hp e' he' => ?_
  cases e with
  | started c =>
    cases c with
    | handler i =>
      by_contra hne
      cases e' with
      | started c' =>
        cases c' with
        | handler j => exact he.2.1 j he'
        | body => exact hne rfl
        | cleanup => exact hne rfl
      | _ => exact hne rfl
    | body => cases hp
    | cleanup => cases hp
  | _ => cases hp

theorem cleanups_le_one {l : List (Event Exn)} (h : Obeys (Allowed b) l) :
    l.countP Event.startsCleanup ≤ 1 := by
  refine h.countP_le_one fun l e he hp e' he' => ?_
  cases e with
  | started c =>
    cases c with
    | cleanup =>
      by_contra hne
      cases e' with
      | started c' =>
        cases c' with
        | cleanup => exact he.2.1 he'
        | body => exact hne rfl
        | handler j => exact hne rfl
      | _ => exact hne rfl
    | body => cases hp
    | handler i => cases hp
  | _ => cases hp

theorem resumed_le_one {l : List (Event Exn)} (h : Obeys (Allowed b) l) :
    l.countP Event.resumesParent ≤ 1 := by
  refine h.countP_le_one fun l e he hp e' he' => ?_
  cases e with
  | resumed =>
    by_contra hne
    cases e' with
    | resumed => exact he.2.1 he'
    | _ => exact hne rfl
  | _ => cases hp

theorem not_asked_cleanup {l : List (Event Exn)} (h : Obeys (Allowed b) l) :
    .asked .cleanup ∉ l ∧ .ended .cleanup .cancelled ∉ l := by
  have hasked : ∀ {l' : List (Event Exn)}, Obeys (Allowed b) l' → .asked .cleanup ∉ l' := by
    intro l' hl' hmem
    obtain ⟨before, after, rfl, ha⟩ := allowed_of_mem hl' hmem
    exact ha rfl
  refine ⟨hasked h, fun hmem => ?_⟩
  obtain ⟨before, after, rfl, ha⟩ := allowed_of_mem h hmem
  exact hasked h (List.mem_append_left _ (ha.2.2 rfl))

/-- In a run of a block with a finally clause, what happens is allowed by what has happened before; at
most one handler is called, the finally clause is started at most once and never cancelled, and the
parent is resumed at most once.  While it has not been resumed, a clause is in progress, unless the
finally clause has thrown and the program has been terminated. -/
theorem stages_in_order {handlers : List (Handler Exn)}
    (h : Reach (step ⟨handlers, true⟩) anyAction .init t) :
    Obeys (Allowed ⟨handlers, true⟩) t.history ∧
      t.history.countP Event.startsHandler ≤ 1 ∧ t.history.countP Event.startsCleanup ≤ 1 ∧
      t.history.countP Event.resumesParent ≤ 1 ∧
      .asked .cleanup ∉ t.history ∧ .ended .cleanup .cancelled ∉ t.history ∧
      (t.history ≠ [] → .resumed ∉ t.history →
        t.calling.isSome = true ∨ t.task.isSome = true ∨
          t.terminated = true ∧ ∃ e, .ended .cleanup (.threw e) ∈ t.history) := by
  have hw := where_of_reach h
  have hobeys := hw.obeys
  obtain ⟨hasked, hcancelled⟩ := not_asked_cleanup hobeys
  refine ⟨hobeys, handlers_le_one hobeys, cleanups_le_one hobeys, resumed_le_one hobeys, hasked,
    hcancelled, fun hne hwait => ?_⟩
  cases hw with
  | idle hl => exact absurd hl hne
  | running c hr hp =>
    rcases hr.clause with ⟨hcall, -⟩ | ⟨-, asked, htask, -⟩
    · exact .inl (by simp [hcall])
    · exact .inr (.inl (by simp [htask]))
  | finished hcall htask hterm hfresh hstage hres => exact absurd hres hwait
  | terminated hterm hmem =>
    obtain ⟨before, after, heq, e, he⟩ := allowed_of_mem hobeys hmem
    refine .inr (.inr ⟨hterm, e, ?_⟩)
    rw [heq]
    exact List.mem_append_left _ he

/-- The body throws `1`, which only the second handler matches; it is cancelled while it is in
progress, and then the finally clause runs. -/
theorem stages_in_order_second :
    ∃ t : State ℕ, Reach (step ⟨[.typed (· == 0), .typed (· == 1), .ellipsis], true⟩) anyAction .init
        t ∧ .started (.handler 1) ∈ t.history ∧ .resumed ∈ t.history ∧
      t.history.countP Event.startsHandler ≤ 1 := by
  have h : Reach (step ⟨[.typed (· == 0), .typed (· == 1), .ellipsis], true⟩) anyAction
      (.init : State ℕ) _ :=
    reach_of_run (l := [.awaitReady, .awaitSetExecutor, .awaitSuspend, .lambdaReturns,
      .taskEnds (.threw 1), .lambdaReturns, .awaitCancel, .taskEnds .cancelled, .lambdaReturns,
      .taskEnds .value]) rfl
  exact ⟨_, h, by decide, by decide, (stages_in_order h).2.1⟩

/-- When the finally clause throws while an exception is in flight, the parent is never resumed. -/
theorem not_resumed_of_two_exceptions :
    ¬ ∀ (handlers : List (Handler ℕ)) (t : State ℕ),
      Reach (step ⟨handlers, true⟩) anyAction .init t → .ended .cleanup (.threw 2) ∈ t.history →
      (∀ a u, step ⟨handlers, true⟩ t a ≠ .ok u) → .resumed ∈ t.history := by
  intro h
  have hreach : Reach (step ⟨[], true⟩) anyAction (.init : State ℕ) _ :=
    reach_of_run (l := [.awaitReady, .awaitSetExecutor, .awaitSuspend, .lambdaThrows 1,
      .lambdaThrows 2]) rfl
  have hres := h [] _ hreach (by decide) fun a u hu => by
    rw [step_of_terminated rfl] at hu
    cases hu
  revert hres
  decide

end Corral.TryBlock
