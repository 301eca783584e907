import Corral.CBPortal.Courses

/-!
# `CBPortal`: what an invocation has done when it returns

* `Extends`: what the code outside the executors does: it adds to what has happened, and what a
  `capture()` has been given is still to be executed;
* `Due`: the next step of the task is to be executed before the stack is as it was;
* `Taking`: the task is about to take its result, or has taken it;
* `results_in_order`: the results are the arguments of the callbacks;
* `invocation_runs_next_step`: the task has done its next step when the invocation returns.
-/

namespace Corral.CBPortal

open ActionMachine
open Executor (Owed Frame)

variable {E L P T V : Type*} [DecidableEq P] [DecidableEq T] [DecidableEq E] [DecidableEq L]
  {loop : E → L} {ex : T → E} {s t u : State E P T V} {x y : T} {n m : ℕ} {p q : P} {v : V}
  {aw : Pending P V} {a : Await P}

structure Extends (s t : State E P T V) : Prop where
  nextId : s.exec.nextId ≤ t.exec.nextId
  job : ∀ id < s.exec.nextId, t.job id = s.job id
  steps : t.steps = s.steps
  course : ∀ y m, s.course y m <+: t.course y m
  owed : ∀ e k id base, Owed s.exec e k id base → Owed t.exec e k id base

omit [DecidableEq P] [DecidableEq T] [DecidableEq E] [DecidableEq L] in
theorem Extends.trans (h : Extends s t) (h' : Extends t u) : Extends s u where
  nextId := h.nextId.trans h'.nextId
  job id hid := (h'.job id (hid.trans_le h.nextId)).trans (h.job id hid)
  steps := h'.steps.trans h.steps
  course y m := (h.course y m).trans (h'.course y m)
  owed e k id base ho := h'.owed e k id base (h.owed e k id base ho)

omit [DecidableEq P] [DecidableEq T] [DecidableEq E] [DecidableEq L] in
/-- The executors do nothing. -/
theorem extends_of_eq (h : (t.exec, t.job, t.steps) = (s.exec, s.job, s.steps))
    (hcourse : ∀ y m, s.course y m <+: t.course y m) : Extends s t := by
  simp only [Prod.mk.injEq] at h
  obtain ⟨hexec, hjob, hsteps⟩ := h
  refine ⟨by rw [hexec], fun id _ => by rw [hjob], hsteps, hcourse, fun e k id base ho => ?_⟩
  rwa [hexec]

omit [DecidableEq P] [DecidableEq E] [DecidableEq L] in
theorem prefix_extend (c : T → ℕ → List (Event P V)) (l : List (Event P V)) (y : T) (m : ℕ) :
    c y m <+: extend c x n l y m := by
  unfold extend
  split_ifs
  · exact List.prefix_append _ _
  · exact List.prefix_rfl

omit [DecidableEq P] [DecidableEq T] in
/-- The executors take a step in which no callback returns. -/
theorem extends_lift {a : Executor.Action E} (ha : a ≠ .ret)
    (h : s.lift (Executor.step loop s.exec a) = .ok t) : Extends s t := by
  obtain ⟨e, he, rfl⟩ := lift_eq_ok.1 h
  exact ⟨nextId_le_of_step he, fun _ _ => rfl, rfl, fun _ _ => List.prefix_rfl,
    fun _ _ _ _ ho => ho.step he fun hret => ha hret.1⟩

omit [DecidableEq P] in
theorem extends_doResume {aw : Option (Pending P V)} (h : s.doResume loop ex x aw = .ok t) :
    Extends s t := by
  obtain ⟨e, he, rfl⟩ := doResume_eq_ok h
  exact ⟨nextId_le_of_step he, fun id hid => Function.update_of_ne hid.ne _ _, rfl,
    fun _ _ => List.prefix_rfl, fun _ _ _ _ ho => ho.step he fun hret => nomatch hret.1⟩

omit [DecidableEq E] [DecidableEq L] in
theorem extends_confirm (s : State E P T V) (x : T) (aw : Pending P V) : Extends s (s.confirm x aw) := by
  obtain ⟨cb, par, hd, -⟩ := destroyProxy_eq (s.setStatus x .ended) aw.await
  unfold State.confirm State.propagateCancel
  rw [hd]
  exact extends_of_eq rfl (prefix_extend _ _)

theorem extends_resumeTask (h : s.resumeTask loop ex x = .ok t) : Extends s t := by
  obtain ⟨aw, r, -, -, h⟩ | ⟨aw, -, -, -, rfl⟩ | ⟨must, -, ⟨r, h⟩ | rfl⟩ | ⟨-, rfl⟩ := resumeTask_cases h
  · have hext := extends_doResume h
    exact ⟨hext.nextId, hext.job, hext.steps, hext.course, hext.owed⟩
  · exact extends_confirm s x aw
  · have hext := extends_doResume h
    exact ⟨hext.nextId, hext.job, hext.steps, hext.course, hext.owed⟩
  · exact extends_of_eq rfl fun _ _ => List.prefix_rfl
  · exact extends_of_eq rfl fun _ _ => List.prefix_rfl

theorem extends_wakeUp (h : s.wakeUp loop ex p = .ok t) : Extends s t := by
  obtain ⟨-, rfl⟩ | ⟨hd, e, -, -, h⟩ := wakeUp_cases h
  · exact extends_of_eq rfl fun _ _ => List.prefix_rfl
  have hout : Extends s (s.handOut p e) :=
    ⟨le_rfl, fun _ _ => rfl, rfl, fun _ _ => List.prefix_rfl, fun _ _ _ _ ho => ho.capture e⟩
  refine hout.trans ?_
  cases hd with
  | task x => exact extends_resumeTask h
  | child x k =>
    obtain ⟨aw, v, -, -, -, -, h⟩ := resume_child_cases h
    have hext := extends_resumeTask h
    exact ⟨hext.nextId, hext.job, hext.steps, hext.course, hext.owed⟩

theorem extends_cancelAwaiter (h : s.cancelAwaiter loop ex x aw = .ok t) : Extends s t := by
  unfold State.cancelAwaiter at h
  cases hp : aw.await.awaiter with
  | portal p =>
    simp only [hp] at h
    exact extends_wakeUp h
  | anyOf p ps =>
    simp only [hp] at h
    cases h
    have hext := extends_confirm (s.wakeAll aw.await) x aw
    exact ⟨hext.nextId, hext.job, hext.steps, hext.course, hext.owed⟩

omit [DecidableEq P] [DecidableEq E] [DecidableEq L] in
theorem extends_record (s : State E P T V) (x : T) (n : ℕ) (e : Event P V) : Extends s (s.record x n e) :=
  extends_of_eq rfl (prefix_extend _ _)

theorem extends_cancelInitiated (h : s.cancelInitiated loop ex x aw = .ok t) : Extends s t := by
  obtain ⟨-, rfl⟩ | ⟨-, h⟩ | ⟨-, h⟩ := cancelInitiated_cases h
  · exact extends_of_eq rfl fun _ _ => List.prefix_rfl
  · exact (extends_record s x aw.number .cancelFn).trans (extends_cancelAwaiter h)
  · exact extends_cancelAwaiter h

omit [DecidableEq P] [DecidableEq E] [DecidableEq L] in
theorem extends_request (s : State E P T V) (x : T) (aw : Pending P V) : Extends s (s.request x aw) :=
  extends_of_eq rfl (prefix_extend _ _)

theorem extends_cancel {answer : Option Bool} (h : s.cancel loop ex x answer = .ok t) : Extends s t := by
  cases hx : s.status x with
  | waiting aw =>
    obtain ⟨-, h⟩ | ⟨-, -, h⟩ | ⟨-, -, rfl⟩ := cancel_waiting_cases hx h
    · exact (extends_request s x aw).trans (extends_cancelAwaiter h)
    · exact (extends_request s x aw).trans (extends_cancelInitiated h)
    · exact extends_of_eq rfl (prefix_extend _ _)
  | unstarted => simp [State.cancel, hx] at h
  | ended => simp [State.cancel, hx] at h
  | ready aw =>
    simp only [State.cancel, hx] at h
    cases h
    exact extends_of_eq rfl fun _ _ => List.prefix_rfl
  | running =>
    simp only [State.cancel, hx] at h
    cases h
    exact extends_of_eq rfl fun _ _ => List.prefix_rfl
  | elsewhere must =>
    cases answer with
    | none =>
      simp only [State.cancel, hx] at h
      cases h
      exact extends_of_eq rfl fun _ _ => List.prefix_rfl
    | some must' =>
      simp only [State.cancel, hx] at h
      cases h
      exact extends_of_eq rfl fun _ _ => List.prefix_rfl

omit [DecidableEq E] [DecidableEq L] in
theorem extends_coAwait (hs : Sound ex s) (h : s.coAwait ex x a = .ok t) : Extends s t := by
  obtain ⟨-, h⟩ := coAwait_cases hs h
  cases h with
  | skipped hp hr =>
    obtain ⟨cb, par, hd, -⟩ := destroyProxy_eq (State.setStatus { s with
      awaits := Function.update s.awaits x (s.awaits x + 1) } x .ended) a
    unfold State.skip State.propagateCancel
    rw [hd]
    exact extends_of_eq rfl (prefix_extend _ _)
  | ready hp hf => exact extends_of_eq rfl fun _ _ => List.prefix_rfl
  | suspended hp hv => exact extends_of_eq rfl fun _ _ => List.prefix_rfl
  | external hp hv => exact extends_of_eq rfl (prefix_extend _ _)
  | inline hp hr hv hcb => exact extends_of_eq rfl (prefix_extend _ _)

theorem extends_invoke (h : s.invoke loop ex p v = .ok t) : Extends s t := by
  obtain ⟨-, -, h⟩ := invoke_cases h
  refine Extends.trans ?_ (extends_wakeUp h)
  refine extends_of_eq rfl fun y m => ?_
  show s.course y m <+: (s.deliver p v).course y m
  unfold State.deliver
  split
  · exact List.prefix_rfl
  · exact prefix_extend _ _ y m

theorem extends_initiateReturns (hc : Calm s) (h : s.initiateReturns loop ex = .ok t) : Extends s t := by
  obtain ⟨i, rest, -, ⟨-, rfl⟩ | ⟨aw, -, -, -, ⟨-, -, h⟩ | ⟨-, rfl⟩⟩⟩ := initiateReturns_cases hc h
  · exact extends_of_eq rfl (prefix_extend _ _)
  · have hret : Extends s (s.initiated i rest aw) := extends_of_eq rfl (prefix_extend _ _)
    exact hret.trans (extends_cancelInitiated h)
  · exact extends_of_eq rfl (prefix_extend _ _)

omit [DecidableEq E] [DecidableEq L] in
theorem extends_initiateThrows (h : s.initiateThrows = .ok t) : Extends s t := by
  obtain ⟨i, rest, aw, -, -, -, -, rfl⟩ := initiateThrows_cases h
  obtain ⟨cb, par, hd, -⟩ := destroyProxy_eq ({ s.record i.task i.number .threw with
    initiating := rest
    status := Function.update s.status i.task .running
    requested := Function.update s.requested i.task i.requested } : State E P T V) aw.await
  rw [hd]
  exact extends_of_eq rfl (prefix_extend _ _)

theorem extends_userStep {act : Action E P T V} (hs : Sound ex s) (hc : Calm s)
    (h : s.userStep loop ex act = .ok t) : Extends s t := by
  cases act with
  | runSoon e => exact extends_lift (a := .runSoon e) nofun h
  | drain e => exact extends_lift (a := .drain e) nofun h
  | capture e => exact extends_lift (a := .capture e) nofun h
  | tick => cases h
  | ret => cases h
  | start x =>
    simp only [State.userStep] at h
    split at h
    · exact extends_doResume h
    · cases h
  | finish x =>
    simp only [State.userStep] at h
    split_ifs at h
    cases h
    exact extends_of_eq rfl fun _ _ => List.prefix_rfl
  | coAwait x a =>
    simp only [State.userStep] at h
    split_ifs at h
    exact extends_coAwait hs h
  | initiateReturns => exact extends_initiateReturns hc h
  | initiateThrows => exact extends_initiateThrows h
  | invoke p v => exact extends_invoke h
  | cancel x answer => exact extends_cancel h
  | leaves x answer =>
    obtain ⟨-, st, -, rfl⟩ := leaves_cases h
    exact extends_of_eq rfl fun _ _ => List.prefix_rfl
  | answers x must =>
    simp only [State.userStep] at h
    split at h
    · cases h
      exact extends_of_eq rfl fun _ _ => List.prefix_rfl
    · cases h
  | comesBack x =>
    simp only [State.userStep] at h
    split at h
    · exact extends_resumeTask h
    · cases h

theorem extends_tick (h : s.tick loop = .ok t) : Extends s t := by
  obtain ⟨e, he, h⟩ := tick_cases h
  have hexec : Extends s ({ s with exec := e } : State E P T V) :=
    extends_lift (a := .tick) nofun (lift_eq_ok.2 ⟨e, he, rfl⟩)
  obtain ⟨-, rfl⟩ | ⟨x, -, h⟩ := h
  · exact hexec
  refine hexec.trans ?_
  obtain ⟨-, rfl⟩ | ⟨aw, -, h⟩ := begins_cases h
  · exact extends_of_eq rfl fun _ _ => List.prefix_rfl
  · obtain ⟨q, v, -, hsame, hcourse, -⟩ := takeResult_eq h
    refine extends_of_eq hsame fun y m => ?_
    rw [hcourse]
    exact prefix_extend _ _ y m

/-! ### The next step of a task -/

/-- The next step of the task is to be executed before the stack is `base` again. -/
def Due (s : State E P T V) (x : T) (base : List (Frame E)) : Prop :=
  ∃ e k id, Owed s.exec e k id base ∧ s.job id = some x

omit [DecidableEq T] [DecidableEq E] [DecidableEq L] in
theorem Extends.due {base : List (Frame E)} (h : Extends s t) (hs : Sound ex s) (hd : Due s x base) :
    Due t x base := by
  obtain ⟨e, k, id, ho, hj⟩ := hd
  exact ⟨e, k, id, h.owed e k id base ho, by rw [h.job id (hs.jobs id x hj), hj]⟩

/-- Unless the task finishes its step, that is still to be done. -/
theorem Due.step {act : Action E P T V} {base : List (Frame E)} (hd : Due s x base) (hs : Sound ex s)
    (h : step loop ex s act = .ok t) : Due t x base ∨ s.steps x < t.steps x := by
  obtain ⟨-, h⟩ | ⟨-, h⟩ | ⟨hu, h⟩ := step_cases h
  · exact .inl ((extends_tick h).due hs hd)
  · obtain ⟨e, he, h⟩ := ret_cases h
    obtain ⟨e', k, id, ho, hj⟩ := hd
    by_cases hret : Executor.Returns s.exec .ret id
    · -- The callback that returns is the step of the task.
      obtain ⟨-, l, below, hst⟩ := hret
      have hcur : (currentCallback s.exec).bind s.job = some x := by
        rw [currentCallback, hst]
        exact hj
      obtain ⟨hnone, -⟩ | ⟨y, hy, -, -, rfl⟩ := h
      · rw [hnone] at hcur
        cases hcur
      · cases hcur.symm.trans hy
        right
        show s.steps x < Function.update s.steps x (s.steps x + 1) x
        rw [Function.update_self]
        exact Nat.lt_succ_self _
    · left
      obtain ⟨-, rfl⟩ | ⟨y, -, -, -, rfl⟩ := h
      · exact ⟨e', k, id, ho.step he hret, hj⟩
      · exact ⟨e', k, id, ho.step he hret, hj⟩
  · exact .inl ((extends_userStep hs (hs.calm hu) h).due hs hd)

/-- What has happened only grows. -/
theorem grows_of_step {act : Action E P T V} (hs : Sound ex s) (h : step loop ex s act = .ok t) :
    (∀ y, s.steps y ≤ t.steps y) ∧ ∀ y m, s.course y m <+: t.course y m := by
  obtain ⟨-, h⟩ | ⟨-, h⟩ | ⟨hu, h⟩ := step_cases h
  · have hext := extends_tick h
    exact ⟨fun y => by rw [hext.steps], hext.course⟩
  · obtain ⟨e, -, ⟨-, rfl⟩ | ⟨x, -, -, -, rfl⟩⟩ := ret_cases h
    · exact ⟨fun _ => le_rfl, fun _ _ => List.prefix_rfl⟩
    · refine ⟨fun y => ?_, fun _ _ => List.prefix_rfl⟩
      show s.steps y ≤ Function.update s.steps x (s.steps x + 1) y
      by_cases hy : y = x
      · rw [hy, Function.update_self]
        exact Nat.le_succ _
      · rw [Function.update_of_ne hy]
  · have hext := extends_userStep hs (hs.calm hu) h
    exact ⟨fun y => by rw [hext.steps], hext.course⟩

/-- The task is about to take this result, in the step after the first `k` ones, or has taken it. -/
def Taking (s : State E P T V) (x : T) (n : ℕ) (p : P) (v : V) (k : ℕ) : Prop :=
  (∃ aw, s.status x = .ready (some aw) ∧ aw.number = n ∧ s.result aw = some (p, v) ∧ s.steps x = k) ∨
    .resumed p v ∈ s.course x n

theorem Taking.step {act : Action E P T V} {k : ℕ} (ht : Taking s x n p v k) (hs : Sound ex s)
    (h : step loop ex s act = .ok t) : Taking t x n p v k := by
  obtain ⟨aw, hx, hn, hres, hk⟩ | hmem := ht
  · have hnext := (hs.next x aw hx).1
    obtain ⟨-, h⟩ | ⟨-, h⟩ | ⟨hu, h⟩ := step_cases h
    · obtain ⟨e, he, h⟩ := tick_cases h
      rw [nextCallback_of_tick he, hnext] at h
      obtain ⟨hnone, -⟩ | ⟨y, hy, h⟩ := h
      · cases hnone
      cases hy
      obtain ⟨hx', -⟩ | ⟨aw', hx', h⟩ := begins_cases h
      · cases hx.symm.trans hx'
      · cases hx.symm.trans hx'
        obtain ⟨q, v', hres', -, hcourse, -⟩ := takeResult_eq h
        cases hres.symm.trans hres'
        right
        rw [hcourse, ← hn, extend_self]
        exact List.mem_append_right _ (List.mem_singleton_self _)
    · obtain ⟨e, -, ⟨-, rfl⟩ | ⟨y, hy, -⟩⟩ := ret_cases h
      · exact .inl ⟨aw, hx, hn, hres, hk⟩
      · -- A callback has control, so no list is about to be drained.
        rw [currentCallback] at hy
        rw [upNext] at hnext
        split at hy
        · rename_i id below hst
          rw [hst] at hnext
          cases hnext
        · cases hy
    · exact absurd hx (hs.calm hu x aw)
  · exact .inr (((grows_of_step hs h).2 x n).subset hmem)

/-! ### Runs -/

/-- **The results are the arguments of the callbacks, in order.**  Whatever is cancelled, no argument is
lost, duplicated or overtaken: for each portal the arguments are the results so far, what a mux has got for
the task whose step comes next, and what is in the buffer.  Nothing is between the two while code outside
the executors has control, and while a task is suspended on portals their arguments have all been taken. -/
theorem results_in_order {ok : State E P T V → Action E P T V → Prop}
    (h : Reach (step loop ex) ok .init s) :
    (∀ p, s.args p = s.results p ++ s.held p ++ (s.value p).toList) ∧
      (s.userCode = true → ∀ p, s.args p = s.results p ++ (s.value p).toList) ∧
      ∀ x aw, s.status x = .waiting aw → s.userCode = true → ∀ p ∈ aw.await.portals,
        s.args p = s.results p := by
  have hs := sound_of_reach h
  have hcalm : s.userCode = true → ∀ p, s.args p = s.results p ++ (s.value p).toList := by
    intro hu p
    have hargs := hs.args p
    rwa [(hs.calm hu).held p, List.append_nil] at hargs
  refine ⟨hs.args, hcalm, fun x aw hx hu p hp => ?_⟩
  rw [hcalm hu p, ((hs.waits x aw hx).2.2 p hp).2]
  exact List.append_nil _

/-- **When the invocation of a callback returns, the task has done its next step.**  If a task is
suspended on the portal when the callback is invoked, then, as soon as the stack is as it was, the task has
finished a step, and its co_await has had the arguments as its result. -/
theorem invocation_runs_next_step {ok ok' : State E P T V → Action E P T V → Prop}
    (hr : Reach (step loop ex) ok .init s) (hx : s.status x = .waiting aw) (hp : p ∈ aw.await.portals)
    (h : step loop ex s (.invoke p v) = .ok t) (hr' : Reach (step loop ex) ok' t u)
    (hback : u.exec.stack.length ≤ s.exec.stack.length) :
    s.steps x < u.steps x ∧ .resumed p v ∈ u.course x aw.number := by
  have hs := sound_of_reach hr
  have hw : s.waiter p = some (x, aw.number) := by
    unfold State.waiter
    rw [((hs.waits x aw hx).2.2 p hp).1]
    simp only [owner_handle, hx, if_pos hp]
  obtain ⟨hact, -⟩ | ⟨hact, -⟩ | ⟨-, hinvoke⟩ := step_cases h
  · cases hact
  · cases hact
  obtain ⟨aw₁, hx₁, -, -, ⟨aw', hn, haw, hres, hst⟩, hexec, hjob, hsteps, -⟩ := invoke_waiting hs hw hinvoke
  cases hx.symm.trans hx₁
  have hdue : Due t x s.exec.stack := by
    refine ⟨ex x, s.exec.nextTmp, s.exec.nextId, Executor.owed_of_capture hexec, ?_⟩
    rw [hjob]
    exact Function.update_self _ _ _
  have htaking : Taking t x aw.number p v (s.steps x) := by
    refine .inl ⟨aw', ?_, hn, hres, by rw [hsteps]⟩
    rw [hst]
    exact Function.update_self _ _ _
  obtain ⟨-, -, hdone, htaken⟩ : Sound ex u ∧ s.steps x ≤ u.steps x ∧
      (Due u x s.exec.stack ∨ s.steps x < u.steps x) ∧ Taking u x aw.number p v (s.steps x) := by
    refine hr'.invariant (I := fun u => Sound ex u ∧ s.steps x ≤ u.steps x ∧
      (Due u x s.exec.stack ∨ s.steps x < u.steps x) ∧ Taking u x aw.number p v (s.steps x))
      ⟨hs.step h, by rw [hsteps], .inl hdue, htaking⟩ ?_
    rintro w a w' ⟨hsound, hle, hdone, htaken⟩ - hstep
    have hmono := (grows_of_step hsound hstep).1 x
    refine ⟨hsound.step hstep, hle.trans hmono, ?_, htaken.step hsound hstep⟩
    obtain hdue | hlt := hdone
    · exact (hdue.step hsound hstep).imp_right hle.trans_lt
    · exact .inr (hlt.trans_le hmono)
  have hlt : s.steps x < u.steps x := by
    obtain ⟨e, k, id, ho, -⟩ | hlt := hdone
    · exact absurd ho.length_lt (not_lt.2 hback)
    · exact hlt
  refine ⟨hlt, ?_⟩
  obtain ⟨-, -, -, -, hk⟩ | hmem := htaken
  · exact absurd hk hlt.ne'
  · exact hmem

/-- A task hands out a callback of its portal, and is suspended. -/
def awaitRun : List (Action Unit ℕ ℕ ℕ) :=
  [.start 0, .tick, .coAwait 0 ⟨.portal 0, some .external⟩, .initiateReturns, .ret, .tick]

/-- The task does its next step, and awaits the portal again. -/
def nextRun : List (Action Unit ℕ ℕ ℕ) :=
  [.tick, .coAwait 0 ⟨.anyOf 0 [1], none⟩, .ret, .tick, .ret, .tick]

theorem results_in_order_awaitRun :
    ∃ s, exec (step id fun _ => ()) .init (awaitRun ++ .invoke 0 7 :: nextRun) = .ok s ∧
      s.args 0 = [7] ∧ s.results 0 = [7] := by
  cases h : exec (step id fun _ => ()) .init (awaitRun ++ .invoke 0 7 :: nextRun) with
  | error e =>
    have hok : (exec (step id fun _ => ()) .init
      (awaitRun ++ .invoke 0 7 :: nextRun)).toOption.isSome := by decide +kernel
    rw [h] at hok
    cases hok
  | ok s =>
    have hstate : (exec (step id fun _ => ()) .init (awaitRun ++ .invoke 0 7 :: nextRun)).map
        (fun s => (s.userCode, s.results 0, s.value 0)) = .ok (true, [7], none) := by decide +kernel
    rw [h] at hstate
    obtain ⟨hu, hstate⟩ := Prod.mk.inj (Except.ok.inj hstate)
    obtain ⟨hres, hval⟩ := Prod.mk.inj hstate
    have hargs := (results_in_order (reach_of_run h)).2.1 hu 0
    rw [hres, hval] at hargs
    exact ⟨s, rfl, hargs, hres⟩

theorem invocation_runs_next_step_nextRun :
    ∃ s t u, exec (step id fun _ => ()) .init awaitRun = .ok s ∧
      step id (fun _ => ()) s (.invoke 0 7) = .ok t ∧ exec (step id fun _ => ()) t nextRun = .ok u ∧
      s.steps 0 < u.steps 0 ∧ .resumed 0 7 ∈ u.course 0 0 := by
  cases h : exec (step id fun _ => ()) .init (awaitRun ++ .invoke 0 7 :: nextRun) with
  | error e =>
    have hok : (exec (step id fun _ => ()) .init
      (awaitRun ++ .invoke 0 7 :: nextRun)).toOption.isSome := by decide +kernel
    rw [h] at hok
    cases hok
  | ok u =>
    obtain ⟨s, hs, hrest⟩ := exec_append_eq_ok h
    obtain ⟨t, ht, hu⟩ := exec_cons_eq_ok hrest
    have hstate : (exec (step id fun _ => ()) .init awaitRun).map
        (fun s => (s.waiter 0, s.exec.stack.length)) = .ok (some (0, 0), 0) := by decide +kernel
    have hback : (exec (step id fun _ => ()) .init (awaitRun ++ .invoke 0 7 :: nextRun)).map
        (fun s => s.exec.stack.length) = .ok 0 := by decide +kernel
    rw [hs] at hstate
    rw [h] at hback
    obtain ⟨hw, hstack⟩ := Prod.mk.inj (Except.ok.inj hstate)
    obtain ⟨hd, aw, -, hx, hp, heq⟩ := waiter_eq_some hw
    obtain ⟨hx0, hn⟩ := Prod.mk.inj heq
    have hstep := invocation_runs_next_step (reach_of_run hs) hx hp ht (reach_of_run hu)
      ((Except.ok.inj hback).trans_le (Nat.zero_le _))
    rw [← hx0, ← hn] at hstep
    exact ⟨s, t, u, hs, ht, hu, hstep⟩

end Corral.CBPortal
