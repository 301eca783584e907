import Corral.ThreadPool.Wakeups

/-!
# `ThreadPool`: its destruction

* `MayDestroy`: the pool is destroyed only without pending or in-progress tasks;
* `Emptied`: then there is no task until the end; `emptied_of_reach`;
* `destruction`: the exit requests are pushed, the threads exit, and what the destructor asserts holds.
-/

namespace Corral.ThreadPool

open ActionMachine StrideRing

variable {c : Config} {K : Type*} [DecidableEq K] {s t : State c K} {i : c.Thread} {l : Lists K}

/-- No task is suspended in the pool. -/
def State.IsIdle (s : State c K) : Prop := ∀ x ∈ s.submitted, s.isActive x = false

instance (s : State c K) : Decidable s.IsIdle := inferInstanceAs (Decidable (∀ x ∈ s.submitted, _))

/-- The pool is destroyed only when no task is suspended in it. -/
def MayDestroy (s : State c K) : Action c K → Prop
  | .destroy => s.IsIdle
  | _ => True

instance (s : State c K) : (a : Action c K) → Decidable (MayDestroy s a)
  | .destroy => inferInstanceAs (Decidable s.IsIdle)
  | .worker _ | .wake _ | .weaklyFail _ | .main | .notify _ | .submit _ | .suspend | .tick _ =>
    isTrue trivial

/-- A pool without tasks. -/
theorem Placed.held_of_isIdle (h : Placed s l) (hi : s.IsIdle) : s.held l = 0 := by
  refine Multiset.eq_zero_of_forall_notMem fun x hx => ?_
  have hmem : x ∈ (s.submitted : Multiset K) := by
    rw [h.ledger.submitted]
    exact Multiset.mem_add.2 (.inl hx)
  exact h.ledger.notMem_of_isActive (hi x (Multiset.mem_coe.1 hmem)) hx

/-- The pool that is being destroyed has no task. -/
def Emptied (s : State c K) : Prop := s.closing = true → s.IsIdle

/-- The tasks that a step submits or resumes. -/
theorem WorkerStep.idle (hs : WorkerStep s i t) :
    (t.submitted, t.resumed, t.main, t.destroyed) = (s.submitted, s.resumed, s.main, s.destroyed) := by
  cases hs <;> rfl

theorem isIdle_congr (ht : (t.submitted, t.resumed) = (s.submitted, s.resumed)) (h : s.IsIdle) :
    t.IsIdle := by
  simp only [Prod.mk.injEq] at ht
  unfold State.IsIdle State.isActive
  rw [ht.1, ht.2]
  exact h

theorem Emptied.workerStep (h : Emptied s) (hs : WorkerStep s i t) : Emptied t := by
  have hframe := hs.idle
  simp only [Prod.mk.injEq] at hframe
  obtain ⟨hsubmitted, hresumed, hmain, hdestroyed⟩ := hframe
  intro hc
  rw [State.closing, hmain, hdestroyed] at hc
  exact isIdle_congr (by rw [hsubmitted, hresumed]) (h hc)

/-- The destructor goes on. -/
theorem Emptied.onward (h : Emptied s)
    (ht : (t.submitted, t.resumed, t.destroyed) = (s.submitted, s.resumed, s.destroyed))
    (hm : t.main.destructs = true → s.main.destructs = true) : Emptied t := by
  simp only [Prod.mk.injEq] at ht
  obtain ⟨hsubmitted, hresumed, hdestroyed⟩ := ht
  intro hc
  refine isIdle_congr (by rw [hsubmitted, hresumed]) (h ?_)
  rw [State.closing, Bool.or_eq_true, hdestroyed] at hc
  rw [State.closing, Bool.or_eq_true]
  exact hc.imp_right hm

/-- The destructor is not called. -/
theorem Emptied.outside (h : Emptied s)
    (ht : (t.submitted, t.resumed, t.destroyed) = (s.submitted, s.resumed, s.destroyed))
    (hm : t.main.destructs = false) : Emptied t := by
  refine h.onward ht ?_
  rw [hm]
  exact fun hd => absurd hd Bool.false_ne_true

/-- A pool that is not closing after the step. -/
theorem emptied_of_not_closing (hd : t.destroyed = false) (hm : t.main.destructs = false) : Emptied t := by
  intro hc
  rw [State.closing, hd, hm] at hc
  cases hc

theorem Emptied.mainStep (he : Exiting s) (hp : Placed s l) (h : Emptied s) (hs : MainStep s t)
    (hd : s.main = .user → t.main.destructs = true → s.IsIdle) : Emptied t := by
  cases hs with
  | @compareExchange caller hm hx =>
    have halive : s.destroyed = false := he.alive (by rw [hm]; rfl)
    cases caller with
    | awaitSuspend x => exact emptied_of_not_closing halive rfl
    | submitBackoffSQ x next => exact emptied_of_not_closing halive rfl
    | destructor n =>
      refine h.onward ?_ fun _ => by rw [hm]; rfl
      show (s.submitted ++ [], s.resumed, s.destroyed) = _
      rw [List.append_nil]
  | stash hm hx => exact h.outside rfl rfl
  | giveUp hm hx => exact h.outside rfl rfl
  | @loadDequeuing caller op hm hop =>
    refine h.onward rfl ?_
    rw [hm]
    cases caller <;> exact id
  | @notifyNone caller hm hi =>
    refine h.onward rfl ?_
    rw [hm]
    cases caller <;> exact id
  | @notifyOne caller i head hm hw hi =>
    refine h.onward rfl ?_
    rw [hm]
    cases caller <;> exact id
  | @advance caller m hm hm' =>
    refine h.onward rfl ?_
    rw [hm]
    obtain ⟨x, rfl, rfl⟩ | ⟨x, next, rfl, rfl⟩ | ⟨n, rfl, ⟨-, rfl⟩ | ⟨-, rfl⟩⟩ := hm'
    · exact id
    · exact id
    · exact id
    · exact fun _ => rfl
  | @pushToBackoffSQ x hm =>
    obtain ⟨next, head, heq⟩ := storeTail_eq (s.setNext x none) x
    rw [heq]
    exact emptied_of_not_closing (he.alive (by rw [hm]; rfl)) rfl
  | tick hm hc hd hp => exact h.outside rfl rfl
  | @drainCQ m hm hm' =>
    refine h.outside rfl ?_
    obtain ⟨-, rfl⟩ | ⟨-, rfl⟩ := hm' <;> rfl
  | reversed hm => exact h.outside rfl rfl
  | reverse hm => exact h.outside rfl rfl
  | processed hm => exact h.outside rfl rfl
  | @resume x hm =>
    -- The task was suspended in the pool until now.
    cases hd : s.destroyed with
    | false => exact emptied_of_not_closing hd rfl
    | true =>
      have hheld := hp.held_of_isIdle (h (by rw [State.closing, hd]; rfl))
      have hptr := hp.linked.drained
      rw [hm] at hptr
      obtain ⟨rest, hl, -⟩ := NextList.isList_some.1 hptr
      have hx : x ∈ s.held l := by
        rw [State.held, hl]
        simp
      rw [hheld] at hx
      exact absurd hx (Multiset.notMem_zero x)
  | suspend hm hc => exact h.outside rfl rfl
  | drained hm hb => exact h.outside rfl rfl
  | resubmit hm hb hd => exact h.outside rfl rfl
  | submitBackoffSQ hm => exact h.outside rfl rfl
  | submitted hm => exact h.outside rfl rfl
  | submit hm hd hx => exact h.outside rfl rfl
  | destroy hm hd' hb => exact fun _ => isIdle_congr rfl (hd hm rfl)
  | join hm hn hw => exact h.onward rfl fun _ => by rw [hm]; rfl
  | destroyed hm hn ht hq =>
    exact fun _ => isIdle_congr rfl (h (by rw [State.closing, hm]; exact Bool.or_true _))

/-- The code of the user gets into the destructor by calling it. -/
theorem eq_destroy_of_step {a : Action c K} (hs : step s a = .ok t) (hm : s.main = .user)
    (hm' : t.main.destructs = true) : a = .destroy := by
  cases a with
  | destroy => rfl
  | worker i =>
    have hmain := congrArg (fun q => q.2.2.1) (workerStep_cases hs).idle
    rw [show t.main = s.main from hmain, hm] at hm'
    cases hm'
  | wake i =>
    simp only [step] at hs
    split at hs <;> cases hs
    rw [State.setWorker, hm] at hm'
    cases hm'
  | weaklyFail i =>
    simp only [step] at hs
    split at hs <;> cases hs
    rw [State.setWorker, hm] at hm'
    cases hm'
  | main =>
    simp only [step, State.mainStep, hm] at hs
    cases hs
  | notify i =>
    simp only [step, hm] at hs
    cases hs
  | submit x =>
    simp only [step] at hs
    split_ifs at hs
    cases hs
    cases hm'
  | suspend =>
    simp only [step] at hs
    split at hs <;> cases hs
    cases hm'
  | tick merged =>
    simp only [step] at hs
    split_ifs at hs
    cases hs
    cases hm'

theorem emptied_of_reach (h : Reach step MayDestroy (State.init c K) s) : Emptied s := by
  have hany : ∀ {t : State c K}, Reach step MayDestroy (State.init c K) t →
      Reach step anyAction (State.init c K) t := fun hr => hr.mono fun _ _ _ => trivial
  refine h.invariant_of (J := fun t => Exiting t ∧ ∃ l, Placed t l)
    (fun t hr => ⟨exiting_of_reach (hany hr), placed_of_reach (hany hr)⟩) nofun ?_
  rintro s a t ⟨he, l, hp⟩ h hok hs
  obtain ⟨i, hw⟩ | hm := step_cases hs
  · exact h.workerStep hw
  · refine h.mainStep he hp hm fun hm hm' => ?_
    cases eq_destroy_of_step hs hm hm'
    exact hok

/-! ### The destructor -/

/-- The assertions of the destructor, and where they fail. -/
theorem assertion_cases {a : Action c K} (hs : step s a = .error .assertion) :
    (∃ n, s.main = .pushToSQ (.destructor n) .compareExchange ∧ (s.sq s.tailIndex).task ≠ none) ∨
      (∃ n, s.main = .join n ∧ c.threadCount ≤ n ∧ ¬ (s.sqHead = s.sqTail ∧ s.cqHead = none)) ∨
      a = .destroy ∧ s.main = .user ∧ s.backoffSqHead ≠ none := by
  cases a with
  | worker i =>
    simp only [step, State.workerStep] at hs
    split at hs <;> cases hs
  | wake i =>
    simp only [step] at hs
    split at hs <;> cases hs
  | weaklyFail i =>
    simp only [step] at hs
    split at hs <;> cases hs
  | notify i =>
    simp only [step] at hs
    split at hs
    · split_ifs at hs
      cases hs
    · cases hs
  | submit x =>
    simp only [step] at hs
    split_ifs at hs <;> cases hs
  | suspend =>
    simp only [step] at hs
    split at hs <;> cases hs
  | tick merged =>
    simp only [step] at hs
    split_ifs at hs <;> cases hs
  | destroy =>
    simp only [step] at hs
    split_ifs at hs with hm hd hb <;> cases hs
    exact .inr (.inr ⟨rfl, hm, hb⟩)
  | main =>
    simp only [step, State.mainStep] at hs
    cases hm : s.main with
    | pushToSQ caller op =>
      rw [hm] at hs
      cases op with
      | compareExchange =>
        simp only [State.pushStep] at hs
        split_ifs at hs with hx
        cases caller with
        | destructor n => exact .inl ⟨n, rfl, hx⟩
        | _ => cases hs
      | notifyOne =>
        simp only [State.pushStep] at hs
        split_ifs at hs
        cases hs
      | _ => cases hs
    | join n =>
      rw [hm] at hs
      simp only at hs
      split_ifs at hs with hn hw hq <;> cases hs
      exact .inr (.inl ⟨n, rfl, not_lt.1 hn, hq⟩)
    | reverse prev curr =>
      rw [hm] at hs
      cases curr <;> cases hs
    | process x =>
      rw [hm] at hs
      cases x <;> cases hs
    | submitBackoffSQ x =>
      rw [hm] at hs
      cases x <;> cases hs
    | drained =>
      rw [hm] at hs
      cases hb : s.backoffSqHead with
      | none =>
        simp only [hb] at hs
        cases hs
      | some x =>
        simp only [hb] at hs
        split_ifs at hs
        cases hs
    | _ =>
      rw [hm] at hs
      cases hs

/-- The main thread touches the pool after its destruction only in `tick()`. -/
theorem lifetime_cases (hs : s.mainStep = .error .lifetime) :
    s.main = .drained ∧ s.destroyed = true ∧ s.backoffSqHead ≠ none := by
  unfold State.mainStep at hs
  cases hm : s.main with
  | pushToSQ caller op =>
    rw [hm] at hs
    simp only [State.pushStep] at hs
    cases op with
    | compareExchange =>
      simp only at hs
      split_ifs at hs
      cases caller <;> cases hs
    | notifyOne =>
      simp only at hs
      split_ifs at hs
      cases hs
    | _ => cases hs
  | join n =>
    rw [hm] at hs
    simp only at hs
    split_ifs at hs <;> cases hs
  | reverse prev curr =>
    rw [hm] at hs
    cases curr <;> cases hs
  | process x =>
    rw [hm] at hs
    cases x <;> cases hs
  | submitBackoffSQ x =>
    rw [hm] at hs
    cases x <;> cases hs
  | drained =>
    rw [hm] at hs
    cases hb : s.backoffSqHead with
    | none =>
      simp only [hb] at hs
      cases hs
    | some x =>
      simp only [hb] at hs
      split_ifs at hs with hd
      exact ⟨rfl, hd, nofun⟩
  | _ =>
    rw [hm] at hs
    cases hs

omit [DecidableEq K] in
/-- In a pool without tasks, the lists are empty. -/
theorem lists_of_held (hl : s.held l = 0) : l.backoff = [] ∧ l.completed = [] := by
  simp only [State.held, add_eq_zero, Multiset.coe_eq_zero] at hl
  exact ⟨hl.1.1.1.1.1, hl.1.1.2⟩

omit [DecidableEq K] in
/-- In a pool without tasks, the slots have none. -/
theorem task_ne_of_held (hl : s.held l = 0) {j : ℕ} (hj : j ∈ Finset.range c.sqCapacity) (x : K) :
    (s.sq j).task ≠ some (.task x) := by
  intro hx
  have hmem : x ∈ s.held l := by
    have hslot : x ∈ ∑ j ∈ Finset.range c.sqCapacity, (s.sq j).tasks := by
      refine Multiset.mem_sum.2 ⟨j, hj, ?_⟩
      rw [Slot.tasks, hx]
      exact Multiset.mem_singleton_self x
    simp only [State.held, Multiset.mem_add]
    tauto
  rw [hl] at hmem
  exact Multiset.notMem_zero x hmem

omit [DecidableEq K] in
/-- There is room for an exit request: there are more slots than threads. -/
theorem room_for_exit (hc : Counted s) (he : Exiting s) (hl : s.held l = 0) {n : ℕ}
    (hm : s.main = .pushToSQ (.destructor n) .compareExchange) : (s.sq s.tailIndex).task = none := by
  by_contra hx
  have hj : s.tailIndex ∈ Finset.range c.sqCapacity := index_mem c s.sqTail
  obtain ⟨a, ha⟩ := Option.ne_none_iff_exists'.1 hx
  cases a with
  | task x => exact task_ne_of_held hl hj x ha
  | exitRequest =>
    obtain ⟨k, hk, hle⟩ := he.recent _ hj ha
    have hlt : k < s.pushes.length := (List.getElem?_eq_some_iff.1 hk).1
    have hexits : s.exits = n := by
      rw [State.exits, he.alive (by rw [hm]; rfl), hm]
      rfl
    have hn : n < c.sqCapacity := (he.pushed n _ hm).trans_le (threadCount_le c)
    obtain ⟨m, hm', hlen⟩ := hc.sqTail
    rw [hm] at hlen
    have htail : s.tailIndex = c.slot s.pushes.length := by
      rw [hlen]
      exact congrArg c.index hm'
    have hslot := getElem?_slots hc.pushes hk
    rw [htail] at hslot
    have heq := spread_slots c 0 k (Set.mem_Ico.2 ⟨hlt.le, by omega⟩)
      (Set.mem_Ico.2 ⟨le_rfl, by omega⟩) hslot
    omega

omit [DecidableEq K] in
/-- When the threads have exited, nothing is left in the slots, and `sqHead` is where `sqTail` is. -/
theorem settled_of_exited (hc : Counted s) (he : Exiting s) (hl : s.held l = 0)
    (hw : ∀ i, s.workers i = .exited) (hexits : s.exits = c.threadCount) (hm : s.main.pushed = 0) :
    (∀ j ∈ Finset.range c.sqCapacity, (s.sq j).task = none) ∧ s.sqHead = s.sqTail := by
  have hcount := he.count
  have hworkers : ∑ i, (s.workers i).exits = c.threadCount := by
    rw [Finset.sum_congr rfl fun i _ => show (s.workers i).exits = 1 by rw [hw i]; rfl]
    simp
  rw [hworkers, hexits, Nat.add_eq_right, Finset.sum_eq_zero_iff] at hcount
  have hslots : ∀ j ∈ Finset.range c.sqCapacity, (s.sq j).task = none := by
    intro j hj
    cases ha : (s.sq j).task with
    | none => rfl
    | some a =>
      cases a with
      | task x => exact absurd ha (task_ne_of_held hl hj x)
      | exitRequest =>
        have hzero := hcount j hj
        rw [Slot.exits, ha] at hzero
        cases hzero
  refine ⟨hslots, ?_⟩
  have hreaders := congrArg Multiset.card hc.readers
  have hitems := congrArg Multiset.card hc.items
  rw [Finset.sum_eq_zero fun i _ => reads_of_none (by rw [hw i]; rfl), add_zero] at hreaders
  rw [Finset.sum_eq_zero fun j hj => by rw [Slot.holds, hslots j hj]; rfl, add_zero] at hitems
  have hlength : s.arrivals.length = s.pushes.length := hreaders.trans hitems.symm
  obtain ⟨n, hn, hlen⟩ := hc.sqTail
  rw [hm, Nat.add_zero] at hlen
  rw [hc.sqHead, hn, hlength, hlen]

/-- **The pool is destroyed in order.**  If it is destroyed only without pending or in-progress tasks, what
the destructor asserts always holds: each `ExitRequest` finds a free slot, and in the end `sqHead` is
`sqTail` and the completion list is empty.  Then all threads have exited, and no slot holds anything; and a
tick that goes on after the destruction does not touch the pool. -/
theorem destruction (h : Reach step MayDestroy (State.init c K) s) :
    (∀ a, MayDestroy s a → step s a ≠ .error .assertion) ∧ step s .main ≠ .error .lifetime ∧
      (s.destroyed = true → (∀ i, s.workers i = .exited) ∧ s.sqHead = s.sqTail ∧ s.cqHead = none ∧
        (∀ j ∈ Finset.range c.sqCapacity, (s.sq j).task = none) ∧ s.IsIdle) := by
  have hany : Reach step anyAction (State.init c K) s := h.mono fun _ _ _ => trivial
  have hc := counted_of_reach hany
  have he := exiting_of_reach hany
  obtain ⟨l, hp⟩ := placed_of_reach hany
  have hempty : s.closing = true → s.held l = 0 := fun hcl => hp.held_of_isIdle (emptied_of_reach h hcl)
  have hcq : s.held l = 0 → s.cqHead = none := by
    intro hl
    have hptr := hp.linked.completed
    rw [(lists_of_held hl).2] at hptr
    exact hptr
  refine ⟨fun a hok hs => ?_, fun hs => ?_, fun hd => ?_⟩
  · obtain ⟨n, hm, hx⟩ | ⟨n, hm, hn, hq⟩ | ⟨rfl, hm, hb⟩ := assertion_cases hs
    · have hcl : s.closing = true := by rw [State.closing, hm]; exact Bool.or_true _
      exact hx (room_for_exit hc he (hempty hcl) hm)
    · have hcl : s.closing = true := by rw [State.closing, hm]; exact Bool.or_true _
      have hw : ∀ i, s.workers i = .exited := fun i => he.joined n hm i (i.2.trans_le hn)
      have hexits : s.exits = c.threadCount := by
        rw [State.exits, he.alive (by rw [hm]; rfl), hm]
        rfl
      refine hq ⟨?_, hcq (hempty hcl)⟩
      exact (settled_of_exited hc he (hempty hcl) hw hexits (by rw [hm]; rfl)).2
    · have hptr := hp.linked.backoff
      rw [hm, (lists_of_held (hp.held_of_isIdle hok)).1] at hptr
      exact hb hptr
  · obtain ⟨-, hd, hb⟩ := lifetime_cases hs
    exact hb (he.backoff (by rw [State.closing, hd]; rfl))
  · have hcl : s.closing = true := by rw [State.closing, hd]; rfl
    have hw := he.exited hd
    have hexits : s.exits = c.threadCount := by rw [State.exits, hd]; rfl
    have hpushed : s.main.pushed = 0 := by
      have hneeds := he.destroyed hd
      cases hm : s.main with
      | pushToSQ caller op =>
        rw [hm] at hneeds
        cases hneeds
      | _ => rfl
    obtain ⟨hslots, heq⟩ := settled_of_exited hc he (hempty hcl) hw hexits hpushed
    exact ⟨hw, heq, hcq (hempty hcl), hslots, emptied_of_reach h hcl⟩

/-- A task is submitted, run and resumed, and then the pool is destroyed. -/
def destroyRun : List (Action twoThreads ℕ) :=
  [.worker 0, .worker 1, .submit 0, .main, .main, .main, .worker 0, .worker 0, .worker 0, .worker 0,
    .worker 0, .worker 0, .worker 0, .tick 1, .main, .main, .main, .main, .suspend, .main, .main, .main,
    .destroy, .main, .main, .main, .main, .main, .main, .worker 1, .worker 1, .worker 0, .worker 0,
    .main, .main, .main]

theorem destruction_destroyRun : ∃ s, exec step (State.init twoThreads ℕ) destroyRun = .ok s ∧
    s.destroyed = true ∧ s.resumed = [0] ∧ s.sqHead = s.sqTail ∧ ∀ i, s.workers i = .exited := by
  have hmeets : Meets step MayDestroy (State.init twoThreads ℕ) destroyRun := by
    decide +kernel
  cases h : exec step (State.init twoThreads ℕ) destroyRun with
  | error e =>
    have hok : (exec step (State.init twoThreads ℕ) destroyRun).toOption.isSome := by decide +kernel
    rw [h] at hok
    cases hok
  | ok s =>
    have hstate : (exec step (State.init twoThreads ℕ) destroyRun).map
        (fun s => (s.destroyed, s.resumed)) = .ok (true, [0]) := by decide +kernel
    rw [h] at hstate
    obtain ⟨hd, hr⟩ := Prod.mk.inj (Except.ok.inj hstate)
    obtain ⟨hw, heq, -⟩ := (destruction (reach_of_exec hmeets h)).2.2 hd
    exact ⟨s, rfl, hd, hr, heq, hw⟩

/-! ### Notifications -/

/-- No notification is to be delivered, or about to be posted. -/
def State.IsQuiet (s : State c K) : Prop := s.posted = 0 ∧ ∀ i, s.workers i ≠ .post

/-- The pool is destroyed only when no notification is to be delivered, either. -/
def MayDestroyQuiet (s : State c K) : Action c K → Prop
  | .destroy => s.IsIdle ∧ s.IsQuiet
  | _ => True

instance (s : State c K) : Decidable s.IsQuiet := inferInstanceAs (Decidable (_ ∧ _))

instance (s : State c K) : (a : Action c K) → Decidable (MayDestroyQuiet s a)
  | .destroy => inferInstanceAs (Decidable (_ ∧ _))
  | .worker _ | .wake _ | .weaklyFail _ | .main | .notify _ | .submit _ | .suspend | .tick _ =>
    isTrue trivial

theorem MayDestroyQuiet.mayDestroy {a : Action c K} (h : MayDestroyQuiet s a) : MayDestroy s a := by
  cases a with
  | destroy => exact h.1
  | _ => trivial

omit [DecidableEq K] in
theorem tasks_of_held (hl : s.held l = 0) (i : c.Thread) : (s.workers i).tasks = 0 := by
  simp only [State.held, add_eq_zero, Finset.sum_eq_zero_iff] at hl
  exact hl.1.1.1.2 i (Finset.mem_univ i)

omit [DecidableEq K] in
theorem State.IsQuiet.setWorker (h : s.IsQuiet) {w : Worker K} (hw : w ≠ .post) :
    (s.setWorker i w).IsQuiet := by
  refine ⟨h.1, fun i' => ?_⟩
  by_cases hi : i' = i
  · rw [hi, workers_setWorker_self]
    exact hw
  · rw [workers_setWorker_of_ne hi]
    exact h.2 i'

/-- Without tasks, no notification is posted. -/
theorem quiet_workerStep (hl : s.held l = 0) (h : s.IsQuiet) (hs : WorkerStep s i t) : t.IsQuiet := by
  cases hs with
  | @pushHead x head w hw hx hw' =>
    have htasks := tasks_of_held hl i
    rw [hw] at htasks
    exact absurd htasks (Multiset.singleton_ne_zero x)
  | post hw => exact absurd hw (h.2 i)
  | @take head ret w hw hx hw' =>
    refine h.setWorker (i := i) (w := w) ?_
    obtain rfl | ⟨spins, rfl⟩ := hw' <;> nofun
  | @miss head w hw hx hw' =>
    refine h.setWorker (i := i) (w := w) ?_
    obtain rfl | ⟨spins, cutoff, rfl⟩ | rfl := hw' <;> nofun
  | fetchAdd hw | loadCutoff hw | storeCutoff hw | startDequeuing hw | block hw hx | pass hw hx | wake hw
  | stopDequeuing hw | exit hw | start hw | run hw | loadHead hw | retry hw =>
    exact h.setWorker (i := i) nofun

/-- The main thread posts nothing. -/
theorem quiet_mainStep (h : s.IsQuiet) (hs : MainStep s t) : t.IsQuiet := by
  cases hs with
  | tick hm hc hd hp => exact ⟨by rw [← Nat.le_zero, ← h.1]; exact Nat.sub_le _ _, h.2⟩
  | @notifyOne caller i head hm hw hi => exact h.setWorker (i := i) (w := .wait head) nofun
  | @pushToBackoffSQ x hm =>
    obtain ⟨next, head, heq⟩ := storeTail_eq (s.setNext x none) x
    rw [heq]
    exact h
  | _ => exact h

omit [DecidableEq K] in
theorem closing_of_destroyed (h : s.destroyed = true) : s.closing = true := by
  rw [State.closing, h, Bool.true_or]

theorem MainStep.closing (hs : MainStep s t) (hc : t.closing = true) :
    s.closing = true ∨ s.main = .user ∧ t.main.destructs = true := by
  cases hs with
  | destroy hm hd hb => exact .inr ⟨hm, rfl⟩
  | join hm hn hw => exact .inl (by rw [State.closing, hm]; exact Bool.or_true _)
  | destroyed hm hn ht hq => exact .inl (by rw [State.closing, hm]; exact Bool.or_true _)
  | @compareExchange caller hm hx =>
    left
    rw [State.closing, hm]
    cases caller <;> exact hc
  | @loadDequeuing caller op hm hop =>
    left
    rw [State.closing, hm]
    cases caller <;> exact hc
  | @notifyNone caller hm hi =>
    left
    rw [State.closing, hm]
    cases caller <;> exact hc
  | @notifyOne caller i head hm hw hi =>
    left
    rw [State.closing, hm]
    cases caller <;> exact hc
  | @advance caller m hm hm' =>
    left
    rw [State.closing, hm]
    obtain ⟨x, rfl, rfl⟩ | ⟨x, next, rfl, rfl⟩ | ⟨n, rfl, ⟨-, rfl⟩ | ⟨-, rfl⟩⟩ := hm' <;> exact hc
  | @drainCQ m hm hm' =>
    left
    refine closing_of_destroyed ?_
    obtain ⟨-, rfl⟩ | ⟨-, rfl⟩ := hm' <;> exact (Bool.or_false _).symm.trans hc
  | @pushToBackoffSQ x hm =>
    obtain ⟨next, head, heq⟩ := storeTail_eq (s.setNext x none) x
    rw [heq] at hc
    exact .inl (closing_of_destroyed ((Bool.or_false _).symm.trans hc))
  | _ => exact .inl (closing_of_destroyed ((Bool.or_false _).symm.trans hc))

/-- The destructor is entered by calling it. -/
theorem closing_of_step {a : Action c K} (hs : step s a = .ok t) (hc : t.closing = true) :
    s.closing = true ∨ a = .destroy := by
  obtain ⟨i, hw⟩ | hm := step_cases hs
  · left
    have hframe := hw.idle
    simp only [Prod.mk.injEq] at hframe
    rw [State.closing, hframe.2.2.1, hframe.2.2.2] at hc
    exact hc
  · exact (hm.closing hc).imp_right fun hd => eq_destroy_of_step hs hd.1 hd.2

theorem quiet_of_reach (h : Reach step MayDestroyQuiet (State.init c K) s) :
    s.closing = true → s.IsQuiet := by
  have hguard : ∀ {t : State c K}, Reach step MayDestroyQuiet (State.init c K) t →
      Emptied t ∧ ∃ l, Placed t l := fun hr =>
    ⟨emptied_of_reach (hr.mono fun _ _ => MayDestroyQuiet.mayDestroy),
      placed_of_reach (hr.mono fun _ _ _ => trivial)⟩
  refine h.invariant_of (I := fun t => t.closing = true → t.IsQuiet) (fun t hr => hguard hr) nofun ?_
  rintro s a t ⟨hempty, l, hp⟩ h hok hs hc
  obtain ⟨hl, hq⟩ : s.held l = 0 ∧ s.IsQuiet := by
    obtain hclosing | rfl := closing_of_step hs hc
    · exact ⟨hp.held_of_isIdle (hempty hclosing), h hclosing⟩
    · exact ⟨hp.held_of_isIdle hok.1, hok.2⟩
  obtain ⟨i, hw⟩ | hm := step_cases hs
  · exact quiet_workerStep hl hq hw
  · exact quiet_mainStep hq hm

/-- One tick is executed for each notification. -/
def Action.separate : Action c K → Bool
  | .tick merged => merged == 1
  | _ => true

/-- The second thread completes a task while the first tick drains the completion list. -/
def lateTickRun : List (Action twoThreads ℕ) :=
  [.worker 0, .worker 1, .submit 0, .main, .main, .main, .submit 1, .main, .main, .main,
    -- Both tasks are run, and the first one is completed.
    .worker 0, .worker 0, .worker 0, .worker 0, .worker 0, .worker 0, .worker 0,
    .worker 1, .worker 1, .worker 1,
    -- The tick takes the first task, the second one is completed, and the tick takes that one, too.
    .tick 1, .main, .worker 1, .worker 1, .main, .main, .main, .suspend, .main, .main, .main, .main, .main,
    -- The code that is resumed destroys the pool, after the second thread has posted a notification.
    .destroy, .main, .main, .main, .main, .main, .main, .worker 1, .worker 1, .worker 1, .worker 1,
    .worker 0, .worker 0, .main, .main, .main, .suspend, .main, .main, .main]

/-- **No tick comes after the destruction, if none is on its way.**  If the pool is destroyed only without
pending or in-progress tasks, and when no notification is to be delivered or about to be posted, then no
tick is executed on the pool that has been destroyed.  The second condition is needed: there is a run, with
one tick for each notification, in which the pool has no task when it is destroyed, and a tick follows. -/
theorem no_tick_after_destruction :
    (∀ (c : Config) (K : Type) [DecidableEq K] (s : State c K),
      Reach step MayDestroyQuiet (State.init c K) s → ∀ merged, step s (.tick merged) ≠ .error .lifetime) ∧
    ∃ s, Reach step (fun s a => MayDestroy s a ∧ a.separate = true) (State.init twoThreads ℕ) s ∧
      step s (.tick 1) = .error .lifetime := by
  constructor
  · intro c K _ s h merged hs
    simp only [step] at hs
    split_ifs at hs with hm hd
    · have hquiet := (quiet_of_reach h (closing_of_destroyed hd)).1
      omega
    · cases hs
  · have hmeets : Meets step (fun s a => MayDestroy s a ∧ a.separate = true)
        (State.init twoThreads ℕ) lateTickRun := by decide +kernel
    cases h : exec step (State.init twoThreads ℕ) lateTickRun with
    | error e =>
      have hok : (exec step (State.init twoThreads ℕ) lateTickRun).toOption.isSome := by
        decide +kernel
      rw [h] at hok
      cases hok
    | ok s =>
      have hlate : (exec step (State.init twoThreads ℕ) lateTickRun).map
          (fun s => (step s (.tick 1)).map fun _ => ()) = .ok (.error .lifetime) := by decide +kernel
      rw [h] at hlate
      refine ⟨s, reach_of_exec hmeets h, ?_⟩
      cases htick : step s (.tick 1) with
      | ok t =>
        simp only [Except.map, htick] at hlate
        cases hlate
      | error e =>
        simp only [Except.map, htick, Except.ok.injEq, Except.error.injEq] at hlate
        rw [hlate]

theorem no_tick_after_destruction_destroyRun :
    ∃ s, exec step (State.init twoThreads ℕ) destroyRun = .ok s ∧ s.destroyed = true ∧
      step s (.tick 1) ≠ .error .lifetime := by
  have hmeets : Meets step MayDestroyQuiet (State.init twoThreads ℕ) destroyRun := by decide +kernel
  cases h : exec step (State.init twoThreads ℕ) destroyRun with
  | error e =>
    have hok : (exec step (State.init twoThreads ℕ) destroyRun).toOption.isSome := by decide +kernel
    rw [h] at hok
    cases hok
  | ok s =>
    have hd : (exec step (State.init twoThreads ℕ) destroyRun).map State.destroyed = .ok true := by
      decide +kernel
    rw [h] at hd
    exact ⟨s, rfl, Except.ok.inj hd, no_tick_after_destruction.1 twoThreads ℕ s (reach_of_exec hmeets h) 1⟩

end Corral.ThreadPool
