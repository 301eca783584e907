import Corral.ThreadPool.Destruction

/-!
# `ThreadPool`: what was submitted gets done

* `Action.advances`: the steps that the threads and the event loop take by themselves;
* `Tuned`: how long a thread spins is bounded;
* `State.work`: the steps that are left to do for the tasks, the notifications and the main thread;
  `State.patience`: those that a thread takes until it has a task or is blocked;
* `State.measure`: the two together, which go down with every such step;
* `stuck`: where no such step is possible, every task has been run and its parent resumed;
* `everything_gets_done`.
-/

namespace Corral.ThreadPool

open ActionMachine Holdings

variable {c : Config} {K : Type*} {s t : State c K} {i : c.Thread} {j : ℕ} {w : Worker K} {m : Main K}
  {l : Lists K}

/-- The threads and the event loop take these steps by themselves; those are left out that the user
asks for, and what may happen spuriously. -/
def Action.advances : Action c K → Bool
  | .worker _ | .main | .notify _ | .suspend | .tick _ => true
  | .wake _ | .weaklyFail _ | .submit _ | .destroy => false

/-! ### The adaptive cutoff -/

def maxCutoff : ℕ := 25000

def Worker.Tuned : Worker K → Prop
  | .spin head spins cutoff =>
    cutoff ≤ maxCutoff ∧ (updateCutoff head = true → cutoff ≤ 20000 ∧ spins ≤ 20000)
  | .storeCutoff spins _ => spins ≤ 20000
  | _ => True

structure Tuned (s : State c K) : Prop where
  cutoff : s.sqSpinCutoff ≤ maxCutoff
  workers : ∀ i, (s.workers i).Tuned

theorem Tuned.setWorker (h : Tuned s) (hw : w.Tuned) : Tuned (s.setWorker i w) where
  cutoff := h.cutoff
  workers i' := by
    by_cases hi : i' = i
    · rw [hi, workers_setWorker_self]
      exact hw
    · rw [workers_setWorker_of_ne hi]
      exact h.workers i'

theorem Tuned.congr (h : Tuned s)
    (hq : (t.sqSpinCutoff, t.workers) = (s.sqSpinCutoff, s.workers)) : Tuned t := by
  simp only [Prod.mk.injEq] at hq
  refine ⟨?_, ?_⟩
  · rw [hq.1]
    exact h.cutoff
  · rw [hq.2]
    exact h.workers

theorem Tuned.exchange (h : Tuned s) {head : ℕ} {found : Item K → Worker K} {missed : Worker K}
    (hf : ∀ a, (found a).Tuned) (hm : missed.Tuned) : Tuned (s.exchange i head found missed) := by
  cases hx : (s.sq (c.index head)).task with
  | none =>
    rw [exchange_of_none hx]
    exact h.setWorker hm
  | some a =>
    rw [exchange_of_some hx]
    exact (h.setWorker (i := i) (hf a)).congr rfl

variable [DecidableEq K]

theorem Tuned.workerStep (h : Tuned s) (hs : s.workerStep i = .ok t) : Tuned t := by
  unfold State.workerStep at hs
  have hi := h.workers i
  cases hw : s.workers i with
  | exchange head =>
    rw [hw] at hs
    cases hs
    exact h.exchange (fun _ => trivial) trivial
  | loadCutoff head =>
    rw [hw] at hs
    cases hs
    refine h.setWorker ?_
    by_cases hu : updateCutoff head = true
    · rw [if_pos hu]
      exact ⟨by decide, fun _ => ⟨le_rfl, Nat.zero_le _⟩⟩
    · rw [if_neg hu]
      exact ⟨h.cutoff, fun hu' => absurd hu' hu⟩
  | spin head spins cutoff =>
    rw [hw] at hs hi
    cases hs
    refine h.exchange (fun a => ?_) ?_
    · split
      case isTrue hu => exact (hi.2 hu).2
      case isFalse hu => trivial
    · split
      case isTrue hlt => exact ⟨hi.1, fun hu => ⟨(hi.2 hu).1, hlt.le.trans (hi.2 hu).1⟩⟩
      case isFalse hlt => trivial
  | storeCutoff spins ret =>
    rw [hw] at hs hi
    cases hs
    refine ⟨?_, (h.setWorker (i := i) (w := .popped ret) trivial).workers⟩
    show max 200 (spins * 5 / 4) ≤ maxCutoff
    have hle : spins ≤ 20000 := hi
    rw [maxCutoff]
    omega
  | popped ret =>
    cases ret <;>
    · rw [hw] at hs
      cases hs
      exact h.setWorker trivial
  | blocked head =>
    rw [hw] at hs
    cases hs
  | exited =>
    rw [hw] at hs
    cases hs
  | wait head =>
    rw [hw] at hs
    cases hs
    refine h.setWorker ?_
    split <;> trivial
  | pushHead x head =>
    rw [hw] at hs
    cases hs
    split
    · refine (h.setWorker (i := i) (w := if head = none then .post else .fetchAdd) ?_).congr rfl
      split <;> trivial
    · exact h.setWorker trivial
  | fetchAdd =>
    rw [hw] at hs
    cases hs
    exact (h.setWorker (i := i) (w := .exchange s.sqHead) trivial).congr rfl
  | run x =>
    rw [hw] at hs
    cases hs
    exact (h.setWorker (i := i) (w := .loadHead x) trivial).congr rfl
  | startDequeuing head =>
    rw [hw] at hs
    cases hs
    exact (h.setWorker (i := i) (w := .wait head) trivial).congr rfl
  | stopDequeuing head =>
    rw [hw] at hs
    cases hs
    exact (h.setWorker (i := i) (w := .exchange head) trivial).congr rfl
  | loadHead x =>
    rw [hw] at hs
    cases hs
    exact (h.setWorker (i := i) (w := .pushHead x s.cqHead) trivial).congr rfl
  | post =>
    rw [hw] at hs
    cases hs
    exact (h.setWorker (i := i) (w := .fetchAdd) trivial).congr rfl

theorem Tuned.mainStep (h : Tuned s) (hs : MainStep s t) : Tuned t := by
  cases hs with
  | @notifyOne caller i head hm hw hi => exact (h.setWorker (i := i) (w := .wait head) trivial).congr rfl
  | @pushToBackoffSQ x hm =>
    obtain ⟨next, head, heq⟩ := storeTail_eq (s.setNext x none) x
    rw [heq]
    exact h.congr rfl
  | _ => exact h.congr rfl

omit [DecidableEq K] in
theorem tuned_init (c : Config) : Tuned (State.init c K) where
  cutoff := show 200 ≤ maxCutoff by decide
  workers _ := trivial

theorem tuned_of_reach (h : Reach step anyAction (State.init c K) s) : Tuned s := by
  refine h.invariant (tuned_init c) fun s a t h _ hs => ?_
  obtain ⟨i, -, hw⟩ | ⟨i, head, -, hw, rfl⟩ | ⟨i, x, head, -, hw, rfl⟩ | hm := action_cases hs
  · exact h.workerStep hw
  · exact h.setWorker trivial
  · exact h.setWorker trivial
  · exact h.mainStep hm

/-! ### What is left to do -/

def Item.work : Item K → ℕ
  | .task _ => 17
  | .exitRequest => 3

def Slot.work (a : Slot K) : ℕ := a.task.elim 0 Item.work

def Worker.work : Worker K → ℕ
  | .storeCutoff _ ret => ret.work - 1
  | .popped ret => ret.work - 2
  | .run _ => 14
  | .loadHead _ | .pushHead _ _ => 13
  | .post => 6
  | _ => 0

/-- What the destructor still has to do when it has pushed some of the exit requests. -/
def Config.exitWork (c : Config) (pushed : ℕ) : ℕ := 7 * (c.threadCount - pushed) + c.threadCount + 1

def Main.work (c : Config) : Main K → ℕ
  | .user => 0
  | .pushToSQ (.awaitSuspend _) .compareExchange => 24
  | .pushToSQ (.awaitSuspend _) .loadDequeuing => 3
  | .pushToSQ (.awaitSuspend _) .notifyOne => 2
  | .pushToSQ (.awaitSuspend _) .advance => 1
  | .pushToSQ (.submitBackoffSQ _ _) .compareExchange => 1
  | .pushToSQ (.submitBackoffSQ _ _) .loadDequeuing => 5
  | .pushToSQ (.submitBackoffSQ _ _) .notifyOne => 4
  | .pushToSQ (.submitBackoffSQ _ _) .advance => 3
  | .pushToSQ (.destructor n) .compareExchange => c.exitWork n
  | .pushToSQ (.destructor n) .loadDequeuing => c.exitWork (n + 1) + 3
  | .pushToSQ (.destructor n) .notifyOne => c.exitWork (n + 1) + 2
  | .pushToSQ (.destructor n) .advance => c.exitWork (n + 1) + 1
  | .pushToBackoffSQ _ => 23
  | .drainCQ => 4
  | .reverse _ _ => 6
  | .process _ => 5
  | .drained => 3
  | .submitBackoffSQ _ => 2
  | .join n => c.threadCount - n + 1

def Context.work : Context K → ℕ
  | .eventLoop => 0
  | .drainCQ _ => 6

/-- The steps that are left to do for the tasks, the notifications and the main thread, at most. -/
def State.work (s : State c K) (l : Lists K) : ℕ :=
  22 * l.backoff.length + ∑ j ∈ Finset.range c.sqCapacity, (s.sq j).work + ∑ i, (s.workers i).work +
    6 * l.completed.length + 2 * l.drained.length + 3 * l.reversing.length + 5 * s.posted +
    s.main.work c + s.context.work

/-- The steps that a thread takes by itself until it has a task or is blocked, at most. -/
def Worker.patience (s : State c K) : Worker K → ℕ
  | .fetchAdd => maxCutoff + 8
  | .exchange head => if (s.sq (c.index head)).task = none then maxCutoff + 5 else 1
  | .loadCutoff head => if (s.sq (c.index head)).task = none then maxCutoff + 4 else 2
  | .spin head spins cutoff => if (s.sq (c.index head)).task = none then 3 + (cutoff - spins) else 1
  | .startDequeuing head => if (s.sq (c.index head)).task = none then 2 else 4
  | .wait head => if (s.sq (c.index head)).task = none then 1 else 3
  | .stopDequeuing head => if (s.sq (c.index head)).task = none then maxCutoff + 6 else 2
  | .loadHead _ => 2
  | .pushHead _ head => if s.cqHead = head then 1 else 3
  | _ => 0

def State.patience (s : State c K) : ℕ := ∑ i, (s.workers i).patience s

theorem patience_congr (hsq : ∀ j, (t.sq j).task = (s.sq j).task) (hcq : t.cqHead = s.cqHead)
    (w : Worker K) : w.patience t = w.patience s := by
  cases w <;> simp only [Worker.patience, hsq, hcq]

/-! ### The worker threads -/

omit [DecidableEq K] in
/-- A thread gets on with its task. -/
theorem work_lt (hq : (t.sq, t.posted, t.main, t.context) = (s.sq, s.posted, s.main, s.context))
    (hworkers : t.workers = Function.update s.workers i w) (hw : w.work < (s.workers i).work) :
    t.work l < s.work l := by
  simp only [Prod.mk.injEq] at hq
  obtain ⟨hsq, hposted, hmain, hcontext⟩ := hq
  have hsum := sum_update_loss (g := fun _ => Worker.work) (w := s.workers) (v := w)
    (m := (s.workers i).work - w.work) (Finset.mem_univ i) (by omega)
  unfold State.work
  rw [hsq, hposted, hmain, hcontext, hworkers]
  omega

omit [DecidableEq K] in
theorem work_eq (hsq : ∀ j, (t.sq j).task = (s.sq j).task)
    (hq : (t.posted, t.main, t.context) = (s.posted, s.main, s.context))
    (hworkers : t.workers = Function.update s.workers i w) (hw : w.work = (s.workers i).work) :
    t.work l = s.work l := by
  simp only [Prod.mk.injEq] at hq
  obtain ⟨hposted, hmain, hcontext⟩ := hq
  have hsum := sum_update_eq (g := fun _ => Worker.work) (w := s.workers) (Finset.mem_univ i) hw
  have hslots : ∑ j ∈ Finset.range c.sqCapacity, (t.sq j).work =
      ∑ j ∈ Finset.range c.sqCapacity, (s.sq j).work :=
    Finset.sum_congr rfl fun j _ => by rw [Slot.work, Slot.work, hsq]
  unfold State.work
  rw [hslots, hposted, hmain, hcontext, hworkers, hsum]

/-- A thread that waits goes on. -/
theorem patience_lt (hsq : ∀ j, (t.sq j).task = (s.sq j).task) (hcq : t.cqHead = s.cqHead)
    (hworkers : t.workers = Function.update s.workers i w)
    (hw : w.patience s < (s.workers i).patience s) : t.patience < s.patience := by
  have hsum := sum_update_loss (g := fun _ => Worker.patience s) (w := s.workers) (v := w)
    (m := (s.workers i).patience s - w.patience s) (Finset.mem_univ i) (by omega)
  unfold State.patience
  rw [hworkers, Finset.sum_congr rfl fun i' _ => patience_congr hsq hcq (Function.update s.workers i w i')]
  omega

omit [DecidableEq K] in
/-- The item goes from its slot to the thread. -/
theorem work_take {head : ℕ} {a : Item K} (hx : (s.sq (c.index head)).task = some a)
    (hi : (s.workers i).work = 0) (hw : w.work < a.work) :
    ((s.setTask (c.index head) none).setWorker i w).work l < s.work l := by
  have hslots := sum_update_loss (g := fun _ => Slot.work) (w := s.sq)
    (v := { s.sq (c.index head) with task := none }) (m := a.work) (index_mem c head)
    (by simp [Slot.work, hx])
  have hworkers := sum_update_gain (g := fun _ => Worker.work) (w := s.workers) (v := w) (m := w.work)
    (Finset.mem_univ i) (by rw [hi, zero_add])
  unfold State.work
  simp only [State.setWorker, State.setTask] at hslots hworkers ⊢
  omega

omit [DecidableEq K] in
/-- A task is completed. -/
theorem work_pushHead {x : K} {head : Option K} (hi : s.workers i = .pushHead x head) (hw : w.work ≤ 6) :
    State.work { s.setWorker i w with cqHead := some x } { l with completed := x :: l.completed } <
      s.work l := by
  have hsum := sum_update_loss (g := fun _ => Worker.work) (w := s.workers) (v := w) (m := 13 - w.work)
    (Finset.mem_univ i) (by rw [hi]; show 13 = _; omega)
  unfold State.work
  simp only [State.setWorker, List.length_cons]
  omega

/-- The step takes something off what is left to do. -/
def GoesDown (s t : State c K) (l : Lists K) : Prop :=
  ∃ l', Placed t l' ∧ (t.work l' < s.work l ∨ t.work l' = s.work l ∧ t.patience < s.patience)

theorem placed_of_workerStep (hp : Placed s l) (hs : s.workerStep i = .ok t)
    (hi : ∀ x head, s.workers i ≠ .pushHead x head) : Placed t l := by
  obtain ⟨l', h, rfl | ⟨x, hx⟩⟩ := hp.workerStep (workerStep_cases hs)
  · exact h
  · exact absurd hx (hi x _)

/-- A thread that keeps its task gets on with it. -/
theorem goesDown_of_work {v : Worker K} (hp : Placed s l) (hs : s.workerStep i = .ok t)
    (hi : s.workers i = v) (hv : ∀ x head, v ≠ .pushHead x head)
    (hq : (t.sq, t.posted, t.main, t.context) = (s.sq, s.posted, s.main, s.context))
    (hworkers : t.workers = Function.update s.workers i w) (hw : w.work < v.work) : GoesDown s t l := by
  subst hi
  exact ⟨l, placed_of_workerStep hp hs hv, .inl (work_lt hq hworkers hw)⟩

/-- A thread without a task, or which tries to hand its task over, goes on. -/
theorem goesDown_of_patience {v : Worker K} (hp : Placed s l) (hs : s.workerStep i = .ok t)
    (hi : s.workers i = v) (hv : ∀ x head, v ≠ .pushHead x head)
    (hsq : ∀ j, (t.sq j).task = (s.sq j).task) (hcq : t.cqHead = s.cqHead)
    (hq : (t.posted, t.main, t.context) = (s.posted, s.main, s.context))
    (hworkers : t.workers = Function.update s.workers i w) (hwork : w.work = v.work)
    (hpatience : w.patience s < v.patience s) : GoesDown s t l := by
  subst hi
  refine ⟨l, placed_of_workerStep hp hs hv, .inr ⟨work_eq hsq hq hworkers hwork, ?_⟩⟩
  exact patience_lt hsq hcq hworkers hpatience

/-- A thread looks into its slot. -/
theorem exchange_goesDown {head : ℕ} {found : Item K → Worker K} {missed : Worker K} (hp : Placed s l)
    (hs : s.workerStep i = .ok (s.exchange i head found missed))
    (hne : ∀ x head, s.workers i ≠ .pushHead x head) (hi : (s.workers i).work = 0)
    (hf : ∀ a, (found a).work < a.work) (hm : missed.work = 0)
    (hw : (s.sq (c.index head)).task = none → missed.patience s < (s.workers i).patience s) :
    GoesDown s (s.exchange i head found missed) l := by
  refine ⟨l, placed_of_workerStep hp hs hne, ?_⟩
  cases hx : (s.sq (c.index head)).task with
  | none =>
    rw [exchange_of_none hx]
    refine .inr ⟨work_eq (fun _ => rfl) rfl rfl (hm.trans hi.symm), ?_⟩
    exact patience_lt (fun _ => rfl) rfl rfl (hw hx)
  | some a =>
    rw [exchange_of_some hx]
    exact .inl (work_take hx hi (hf a))

theorem workerStep_goesDown (hp : Placed s l) (ht : Tuned s) (hs : s.workerStep i = .ok t) :
    GoesDown s t l := by
  have hs' := hs
  have hi := ht.workers i
  unfold State.workerStep at hs'
  cases hw : s.workers i with
  | fetchAdd =>
    rw [hw] at hs'
    cases hs'
    refine goesDown_of_patience (w := .exchange s.sqHead) hp hs hw nofun (fun _ => rfl) rfl rfl rfl rfl ?_
    simp only [Worker.patience]
    split <;> omega
  | exchange head =>
    rw [hw] at hs'
    cases hs'
    refine exchange_goesDown hp hs (by rw [hw]; nofun) (by rw [hw]; rfl) ?_ rfl fun hx => ?_
    · intro a
      cases a <;> simp only [Worker.work, Item.work] <;> omega
    · rw [hw]
      simp only [Worker.patience, if_pos hx]
      omega
  | loadCutoff head =>
    rw [hw] at hs'
    cases hs'
    refine goesDown_of_patience hp hs hw nofun (fun _ => rfl) rfl rfl rfl rfl ?_
    have hcutoff : (if updateCutoff head = true then 20000 else s.sqSpinCutoff) ≤ maxCutoff := by
      split
      · decide
      · exact ht.cutoff
    simp only [Worker.patience]
    split <;> omega
  | spin head spins cutoff =>
    rw [hw] at hs' hi
    cases hs'
    refine exchange_goesDown hp hs (by rw [hw]; nofun) (by rw [hw]; rfl) ?_ ?_ fun hx => ?_
    · intro a
      split <;> cases a <;> simp only [Worker.work, Item.work] <;> omega
    · split <;> rfl
    · rw [hw]
      split
      · simp only [Worker.patience, if_pos hx]
        omega
      · simp only [Worker.patience, if_pos hx]
        omega
  | storeCutoff spins ret =>
    rw [hw] at hs'
    cases hs'
    refine goesDown_of_work (w := .popped ret) hp hs hw nofun rfl rfl ?_
    cases ret <;> simp only [Worker.work, Item.work] <;> omega
  | startDequeuing head =>
    rw [hw] at hs'
    cases hs'
    have hsq : ∀ j, ((s.setDequeuing (c.index head) true).sq j).task = (s.sq j).task := fun j =>
      (sq_setDequeuing s _ true j).1
    refine goesDown_of_patience hp hs hw nofun hsq rfl rfl rfl rfl ?_
    simp only [Worker.patience]
    split <;> omega
  | wait head =>
    rw [hw] at hs'
    cases hs'
    refine goesDown_of_patience hp hs hw nofun (fun _ => rfl) rfl rfl rfl ?_ ?_
    · split <;> rfl
    · split <;> rename_i hx <;> simp [Worker.patience, hx]
  | blocked head =>
    rw [hw] at hs'
    cases hs'
  | stopDequeuing head =>
    rw [hw] at hs'
    cases hs'
    have hsq : ∀ j, ((s.setDequeuing (c.index head) false).sq j).task = (s.sq j).task := fun j =>
      (sq_setDequeuing s _ false j).1
    refine goesDown_of_patience hp hs hw nofun hsq rfl rfl rfl rfl ?_
    simp only [Worker.patience]
    split <;> omega
  | popped ret =>
    cases ret with
    | task x =>
      rw [hw] at hs'
      cases hs'
      exact goesDown_of_work (w := .run x) hp hs hw nofun rfl rfl (Nat.lt_succ_self 14)
    | exitRequest =>
      rw [hw] at hs'
      cases hs'
      exact goesDown_of_work (w := .exited) hp hs hw nofun rfl rfl (Nat.lt_succ_self 0)
  | run x =>
    rw [hw] at hs'
    cases hs'
    exact goesDown_of_work (w := .loadHead x) hp hs hw nofun rfl rfl (Nat.lt_succ_self 13)
  | loadHead x =>
    rw [hw] at hs'
    cases hs'
    refine goesDown_of_patience (w := .pushHead x s.cqHead) hp hs hw nofun (fun _ => rfl) rfl rfl rfl rfl ?_
    simp [Worker.patience]
  | pushHead x head =>
    rw [hw] at hs'
    cases hs'
    by_cases hq : s.cqHead = head
    · subst hq
      rw [if_pos rfl] at hs ⊢
      have hw' : (if s.cqHead = none then Worker.post else Worker.fetchAdd : Worker K).work ≤ 6 := by
        split
        · exact le_rfl
        · exact Nat.zero_le 6
      refine ⟨_, hp.pushHead hw ?_ ?_ ?_, .inl (work_pushHead hw hw')⟩
      · split <;> rfl
      · split <;> rfl
      · split <;> exact fun _ _ => nofun
    · rw [if_neg hq] at hs ⊢
      obtain ⟨l', h, rfl | ⟨y, hy⟩⟩ := hp.workerStep (workerStep_cases hs)
      · refine ⟨l', h, .inr ⟨work_eq (fun _ => rfl) rfl rfl (by rw [hw]; rfl), ?_⟩⟩
        refine patience_lt (fun _ => rfl) rfl rfl ?_
        rw [hw]
        simp [Worker.patience, hq]
      · rw [hw] at hy
        cases hy
        exact absurd rfl hq
  | post =>
    rw [hw] at hs'
    cases hs'
    refine ⟨l, placed_of_workerStep hp hs (by rw [hw]; nofun), .inl ?_⟩
    have hsum := sum_update_loss (g := fun _ => Worker.work) (w := s.workers) (v := .fetchAdd) (m := 6)
      (Finset.mem_univ i) (by rw [hw]; rfl)
    unfold State.work
    simp only [State.setWorker]
    omega
  | exited =>
    rw [hw] at hs'
    cases hs'

/-! ### The main thread -/

omit [DecidableEq K] in
/-- The main thread goes on. -/
theorem work_setMain (hq : (t.sq, t.workers, t.posted, t.context) = (s.sq, s.workers, s.posted, s.context))
    (hm : t.main.work c < s.main.work c) : t.work l < s.work l := by
  simp only [Prod.mk.injEq] at hq
  obtain ⟨hsq, hworkers, hposted, hcontext⟩ := hq
  unfold State.work
  rw [hsq, hworkers, hposted, hcontext]
  omega

omit [DecidableEq K] in
/-- An item is pushed into its slot. -/
theorem work_push {caller : Caller K} (he : Exiting s) (hl : Linked s l)
    (hm : s.main = .pushToSQ caller .compareExchange) (hx : (s.sq s.tailIndex).task = none) :
    State.work { (s.setTask s.tailIndex (some caller.item)).setMain (.pushToSQ caller .loadDequeuing) with
      pushes := s.pushes ++ [s.tailIndex]
      submitted := s.submitted ++ caller.submits } { l with backoff := caller.leaves l.backoff } <
        s.work l := by
  have hslots := sum_update_gain (i := s.tailIndex) (g := fun _ => Slot.work) (w := s.sq)
    (v := { s.sq s.tailIndex with task := some caller.item }) (m := caller.item.work)
    (index_mem c s.sqTail) (by simp [Slot.work, hx])
  unfold State.work
  simp only [State.setMain, State.setTask]
  rw [hslots, hm]
  cases caller with
  | awaitSuspend x =>
    simp only [Main.work, Caller.item, Item.work, Caller.leaves]
    omega
  | submitBackoffSQ x next =>
    have hptr := hl.backoff
    rw [hm] at hptr
    obtain ⟨rest, hrest, -⟩ := NextList.isList_some.1 hptr
    simp only [Main.work, Caller.item, Item.work, Caller.leaves, hrest, List.tail_cons, List.length_cons]
    omega
  | destructor n =>
    have hn := he.pushed n _ hm
    simp only [Main.work, Caller.item, Item.work, Caller.leaves, Config.exitWork]
    omega

/-- The main thread takes something off, unless the user asks for more. -/
theorem mainStep_work (hp : Placed s l) (he : Exiting s) (hs : MainStep s t)
    (hu : s.main = .user → t.main.drains = true) :
    t.work (s.main.lists (s.sq s.tailIndex).task.isNone l) < s.work l := by
  cases hs with
  | @compareExchange caller hm hx =>
    rw [hm, Option.isNone_iff_eq_none.2 hx]
    exact work_push he hp.linked hm hx
  | stash hm hx =>
    rw [hm, Option.isNone_eq_false_iff.2 (Option.isSome_iff_ne_none.2 hx)]
    exact work_setMain rfl (by rw [hm]; exact Nat.lt_succ_self 23)
  | giveUp hm hx =>
    rw [hm, Option.isNone_eq_false_iff.2 (Option.isSome_iff_ne_none.2 hx)]
    exact work_setMain rfl (by rw [hm]; exact Nat.lt_succ_self 0)
  | @loadDequeuing caller op hm hop =>
    rw [hm]
    refine work_setMain rfl ?_
    rw [hm]
    obtain ⟨-, rfl⟩ | ⟨-, rfl⟩ := hop <;> cases caller <;> simp [Main.work, State.setMain]
  | @notifyNone caller hm hi =>
    rw [hm]
    refine work_setMain rfl ?_
    rw [hm]
    cases caller <;> simp [Main.work, State.setMain]
  | @notifyOne caller i head hm hw hi =>
    have hsum := sum_update_eq (g := fun _ => Worker.work) (w := s.workers) (v := .wait head)
      (Finset.mem_univ i) (by rw [hw]; rfl)
    rw [hm]
    unfold State.work
    simp only [State.setMain, State.setWorker, Main.lists]
    rw [hsum, hm]
    cases caller <;> simp [Main.work]
  | @advance caller m hm hm' =>
    have hwork : m.work c < (Main.pushToSQ caller .advance : Main K).work c := by
      obtain ⟨x, rfl, rfl⟩ | ⟨x, next, rfl, rfl⟩ | ⟨n, rfl, ⟨hn, rfl⟩ | ⟨hn, rfl⟩⟩ := hm'
      · exact Nat.lt_succ_self 0
      · exact Nat.lt_succ_self 2
      · exact Nat.lt_succ_self _
      · simp only [Main.work, Config.exitWork]
        omega
    rw [hm]
    refine work_setMain rfl ?_
    rw [hm]
    exact hwork
  | @pushToBackoffSQ x hm =>
    obtain ⟨next, head, heq⟩ := storeTail_eq (s.setNext x none) x
    rw [heq, hm]
    unfold State.work
    simp only [State.setMain, State.setNext, Main.lists, List.length_append, List.length_singleton]
    rw [hm]
    simp only [Main.work]
    omega
  | @tick merged hm hc hd hp =>
    rw [hm]
    unfold State.work
    simp only [State.setMain, Main.lists]
    rw [hm]
    simp only [Main.work]
    omega
  | @drainCQ m hm hm' =>
    have hptr := hp.linked.completed.ptr_eq
    rw [hm]
    unfold State.work
    simp only [State.setMain, Main.lists, List.length_nil]
    rw [hm]
    obtain ⟨hq, rfl⟩ | ⟨hq, rfl⟩ := hm'
    · rw [hq] at hptr
      rw [List.head?_eq_none_iff.1 hptr.symm]
      simp only [Main.work, List.length_nil]
      omega
    · rw [hptr] at hq
      have hpos : 0 < l.completed.length :=
        List.length_pos_iff.2 fun hnil => hq (by rw [hnil]; rfl)
      simp only [Main.work]
      omega
  | reversed hm =>
    rw [hm]
    exact work_setMain rfl (by rw [hm]; exact Nat.lt_succ_self 5)
  | @reverse prev x hm =>
    have hptr := hp.linked.reversing
    rw [hm] at hptr
    obtain ⟨rest, hrest, -⟩ := NextList.isList_some.1 hptr
    rw [hm]
    unfold State.work
    simp only [State.setMain, State.setNext, Main.lists, hrest, List.tail_cons, List.length_cons]
    rw [hm]
    simp only [Main.work]
    omega
  | processed hm =>
    rw [hm]
    exact work_setMain rfl (by rw [hm]; exact Nat.lt_succ_self 4)
  | @resume x hm =>
    have hptr := hp.linked.drained
    rw [hm] at hptr
    obtain ⟨rest, hrest, -⟩ := NextList.isList_some.1 hptr
    rw [hm]
    unfold State.work
    simp only [State.setMain, Main.lists, hrest, List.tail_cons, List.length_cons]
    rw [hm]
    simp only [Main.work, Context.work]
    omega
  | suspend hm hc =>
    rw [hm]
    unfold State.work
    simp only [State.setMain, Main.lists]
    rw [hm, hc]
    simp only [Main.work, Context.work]
    omega
  | drained hm hb =>
    rw [hm]
    exact work_setMain rfl (by rw [hm]; exact Nat.succ_pos 2)
  | resubmit hm hb hd =>
    rw [hm]
    exact work_setMain rfl (by rw [hm]; exact Nat.lt_succ_self 2)
  | submitBackoffSQ hm =>
    rw [hm]
    exact work_setMain rfl (by rw [hm]; exact Nat.lt_succ_self 1)
  | submitted hm =>
    rw [hm]
    exact work_setMain rfl (by rw [hm]; exact Nat.succ_pos 1)
  | submit hm hd hx => cases hu hm
  | destroy hm hd hb => cases hu hm
  | @join n hm hn hw =>
    rw [hm]
    refine work_setMain rfl ?_
    rw [hm]
    simp only [State.setMain, Main.work]
    omega
  | destroyed hm hn ht hq =>
    rw [hm]
    exact work_setMain rfl (by rw [hm]; exact Nat.succ_pos _)

/-! ### The measure -/

/-- What the main thread does next, when the user asks for nothing. -/
theorem drains_of_advances {a : Action c K} (ha : a.advances = true) (hs : step s a = .ok t)
    (hw : ∀ i, a ≠ .worker i) (hu : s.main = .user) : t.main.drains = true := by
  cases a with
  | suspend =>
    simp only [step] at hs
    split at hs <;> cases hs
    rfl
  | tick merged =>
    simp only [step] at hs
    split_ifs at hs
    cases hs
    rfl
  | main =>
    simp only [step, State.mainStep, hu] at hs
    cases hs
  | notify i =>
    simp only [step, hu] at hs
    cases hs
  | worker i => exact absurd rfl (hw i)
  | _ => cases ha

theorem step_goesDown {a : Action c K} (hp : Placed s l) (ht : Tuned s) (he : Exiting s)
    (ha : a.advances = true) (hs : step s a = .ok t) : GoesDown s t l := by
  by_cases hw : ∃ i, a = .worker i
  · obtain ⟨i, rfl⟩ := hw
    exact workerStep_goesDown hp ht hs
  · have hw : ∀ i, a ≠ .worker i := fun i heq => hw ⟨i, heq⟩
    obtain ⟨i, rfl, -⟩ | ⟨i, head, rfl, -, -⟩ | ⟨i, x, head, rfl, -, -⟩ | hm := action_cases hs
    · exact absurd rfl (hw i)
    · cases ha
    · cases ha
    · exact ⟨_, hp.mainStep hm, .inl (mainStep_work hp he hm (drains_of_advances ha hs hw))⟩

theorem patience_le (s : State c K) (hw : w.Tuned) : w.patience s ≤ maxCutoff + 8 := by
  cases w with
  | spin head spins cutoff =>
    have hle : cutoff ≤ maxCutoff := hw.1
    simp only [Worker.patience]
    split <;> omega
  | _ =>
    simp only [Worker.patience]
    try split
    all_goals omega

theorem Tuned.patience_le (h : Tuned s) : s.patience ≤ c.threadCount * (maxCutoff + 8) := calc
  s.patience ≤ ∑ _i : c.Thread, (maxCutoff + 8) :=
    Finset.sum_le_sum fun i _ => ThreadPool.patience_le s (h.workers i)
  _ = c.threadCount * (maxCutoff + 8) := by simp

/-- How many steps there are left, at most, if nothing more is submitted. -/
def State.measure (s : State c K) : ℕ :=
  s.work s.lists * (c.threadCount * (maxCutoff + 8) + 1) + s.patience

theorem measure_lt {a : Action c K} (h : Reach step anyAction (State.init c K) s) (ha : a.advances = true)
    (hs : step s a = .ok t) : t.measure < s.measure := by
  obtain ⟨l, hp⟩ := placed_of_reach h
  have ht : Tuned t := tuned_of_reach (h.tail trivial hs)
  obtain ⟨l', hp', hdown⟩ := step_goesDown hp (tuned_of_reach h) (exiting_of_reach h) ha hs
  unfold State.measure
  rw [hp.lists_eq, hp'.lists_eq]
  obtain hlt | ⟨heq, hlt⟩ := hdown
  · have hmul := Nat.mul_le_mul_right (c.threadCount * (maxCutoff + 8) + 1) (Nat.succ_le_of_lt hlt)
    have hle := ht.patience_le
    rw [Nat.succ_mul] at hmul
    omega
  · rw [heq]
    omega

/-- The runs without anything that the user asks for are bounded. -/
theorem length_le_measure (h : Reach step anyAction (State.init c K) s) {as : List (Action c K)}
    (ha : ∀ a ∈ as, a.advances = true) (hs : exec step s as = .ok t) : as.length ≤ s.measure := by
  have hmeets : Meets step (fun _ a => a.advances = true) s as := meets_of_forall (fun a h _ => ha a h) s
  have hle := length_add_le_of_lt (I := fun s => Reach step anyAction (State.init c K) s)
    (μ := State.measure) hmeets hs h (fun _ _ _ hr _ hs => hr.tail trivial hs)
    fun _ _ _ hr ha hs => measure_lt hr ha hs
  omega

/-! ### Where nothing goes on -/

omit [DecidableEq K] in
theorem coe_slots_le {l l' : List ℕ} (hl : l = (List.range l.length).map c.slot)
    (hl' : l' = (List.range l'.length).map c.slot) (hle : l.length ≤ l'.length) :
    (l : Multiset ℕ) ≤ l' := by
  rw [hl, hl']
  exact Multiset.coe_le.2 ((List.range_sublist.2 hle).map c.slot).subperm

omit [DecidableEq K] in
/-- When as many items as readers have come, there is an item for each reader. -/
theorem Counted.inhabited (h : Counted s) (hle : s.arrivals.length ≤ s.pushes.length) {n : ℕ}
    (hi : (s.workers i).head? = some n) : (s.sq (c.index n)).task ≠ none := by
  have hslots := coe_slots_le h.arrivals h.pushes hle
  rw [h.readers, h.items, add_le_add_iff_left] at hslots
  have hmem : c.index n ∈ ∑ i, (s.workers i).reads c := by
    refine Multiset.mem_sum.2 ⟨i, Finset.mem_univ i, ?_⟩
    rw [reads_of_head hi]
    exact Multiset.mem_singleton_self _
  obtain ⟨j, -, hj⟩ := Multiset.mem_sum.1 (Multiset.mem_of_le hslots hmem)
  rw [Slot.holds] at hj
  split at hj
  case isTrue hsome =>
    rw [Multiset.mem_singleton.1 hj]
    exact Option.isSome_iff_ne_none.1 hsome
  case isFalse => exact absurd hj (Multiset.notMem_zero _)

omit [DecidableEq K] in
/-- When as many readers as items have come, there is a reader for each item. -/
theorem Counted.has_reader (h : Counted s) (hle : s.pushes.length ≤ s.arrivals.length)
    (hj : j ∈ Finset.range c.sqCapacity) (hx : (s.sq j).task ≠ none) :
    ∃ i n, (s.workers i).head? = some n ∧ c.index n = j := by
  have hslots := coe_slots_le h.pushes h.arrivals hle
  rw [h.readers, h.items, add_le_add_iff_left] at hslots
  have hmem : j ∈ ∑ j ∈ Finset.range c.sqCapacity, (s.sq j).holds j := by
    refine Multiset.mem_sum.2 ⟨j, hj, ?_⟩
    rw [Slot.holds, if_pos (Option.isSome_iff_ne_none.2 hx)]
    exact Multiset.mem_singleton_self j
  obtain ⟨i, -, hi⟩ := Multiset.mem_sum.1 (Multiset.mem_of_le hslots hmem)
  cases hn : (s.workers i).head? with
  | none =>
    rw [reads_of_none hn] at hi
    exact absurd hi (Multiset.notMem_zero j)
  | some n =>
    rw [reads_of_head hn] at hi
    exact ⟨i, n, hn, (Multiset.mem_singleton.1 hi).symm⟩

/-- No thread goes on, nor does the event loop. -/
def Stuck (s : State c K) : Prop := ∀ a t, a.advances = true → step s a ≠ .ok t

/-- Then a worker thread is blocked, or has exited. -/
theorem Stuck.worker (h : Stuck s) (i : c.Thread) :
    (∃ n, s.workers i = .blocked n) ∨ s.workers i = .exited := by
  have hno : ∀ t, s.workerStep i ≠ .ok t := fun t => h (.worker i) t rfl
  unfold State.workerStep at hno
  cases hw : s.workers i with
  | blocked n => exact .inl ⟨n, rfl⟩
  | exited => exact .inr rfl
  | popped ret =>
    cases ret <;>
    · rw [hw] at hno
      exact absurd rfl (hno _)
  | _ =>
    rw [hw] at hno
    exact absurd rfl (hno _)

theorem notify_of_isBlocked {caller : Caller K} (hm : s.main = .pushToSQ caller .notifyOne)
    (hi : s.isBlocked i s.tailIndex = true) : ∃ t, step s (.notify i) = .ok t := by
  unfold State.isBlocked at hi
  cases hw : s.workers i with
  | blocked head =>
    rw [hw] at hi
    refine ⟨(s.setWorker i (.wait head)).setMain (.pushToSQ caller .advance), ?_⟩
    simp only [step, hm, hw]
    exact if_pos (beq_iff_eq.1 hi)
  | _ =>
    rw [hw] at hi
    cases hi

/-- And the main thread is in the code of the user, or waits for a thread. -/
theorem Stuck.main (h : Stuck s) (hc : Counted s) (he : Exiting s)
    (hl : s.closing = true → s.held l = 0) (hq : s.closing = true → s.cqHead = none) :
    s.main = .user ∨ ∃ n i, s.main = .join n ∧ s.workers i ≠ .exited := by
  have hno : ∀ t, s.mainStep ≠ .ok t := fun t => h .main t rfl
  unfold State.mainStep at hno
  cases hm : s.main with
  | user => exact .inl rfl
  | pushToSQ caller op =>
    rw [hm] at hno
    cases op with
    | compareExchange =>
      by_cases hx : (s.sq s.tailIndex).task = none
      · simp only [State.pushStep, if_pos hx] at hno
        exact absurd rfl (hno _)
      · simp only [State.pushStep, if_neg hx] at hno
        cases caller with
        | destructor n =>
          have hcl : s.closing = true := by rw [State.closing, hm]; exact Bool.or_true _
          exact absurd (room_for_exit hc he (hl hcl) hm) hx
        | _ => exact absurd rfl (hno _)
    | notifyOne =>
      by_cases hi : ∃ i, s.isBlocked i s.tailIndex = true
      · obtain ⟨i, hi⟩ := hi
        obtain ⟨t, ht⟩ := notify_of_isBlocked hm hi
        exact absurd ht (h (.notify i) t rfl)
      · simp only [State.pushStep, if_neg hi] at hno
        exact absurd rfl (hno _)
    | _ => exact absurd rfl (hno _)
  | drained =>
    rw [hm] at hno
    cases hb : s.backoffSqHead with
    | none =>
      simp only [hb] at hno
      exact absurd rfl (hno _)
    | some x =>
      cases hd : s.destroyed with
      | true =>
        rw [he.backoff (closing_of_destroyed hd)] at hb
        cases hb
      | false =>
        simp only [hb, hd, Bool.false_eq_true, if_false] at hno
        exact absurd rfl (hno _)
  | join n =>
    right
    rw [hm] at hno
    by_cases hn : n < c.threadCount
    · simp only [dif_pos hn] at hno
      by_cases hw : s.workers ⟨n, hn⟩ = .exited
      · simp only [if_pos hw] at hno
        exact absurd rfl (hno _)
      · exact ⟨n, ⟨n, hn⟩, rfl, hw⟩
    · simp only [dif_neg hn] at hno
      have hcl : s.closing = true := by rw [State.closing, hm]; exact Bool.or_true _
      have hexits : s.exits = c.threadCount := by
        rw [State.exits, he.alive (by rw [hm]; rfl), hm]
        rfl
      have hw : ∀ i, s.workers i = .exited := fun i => he.joined n hm i (i.2.trans_le (not_lt.1 hn))
      have hend := (settled_of_exited hc he (hl hcl) hw hexits (by rw [hm]; rfl)).2
      simp only [if_pos (And.intro hend (hq hcl))] at hno
      exact absurd rfl (hno _)
  | reverse prev curr =>
    rw [hm] at hno
    cases curr <;> exact absurd rfl (hno _)
  | process x =>
    rw [hm] at hno
    cases x <;> exact absurd rfl (hno _)
  | submitBackoffSQ x =>
    rw [hm] at hno
    cases x <;> exact absurd rfl (hno _)
  | _ =>
    rw [hm] at hno
    exact absurd rfl (hno _)

theorem Stuck.head? (h : Stuck s) (hi : s.workers i ≠ .exited) :
    ∃ n, s.workers i = .blocked n ∧ (s.workers i).head? = some n := by
  obtain ⟨n, hn⟩ | hw := h.worker i
  · exact ⟨n, hn, by rw [hn]; rfl⟩
  · exact absurd hw hi

omit [DecidableEq K] in
/-- Each item in a slot is counted, and so is each exit request. -/
theorem exits_le_holds (s : State c K) : ∑ j ∈ Finset.range c.sqCapacity, (s.sq j).exits ≤
    (∑ j ∈ Finset.range c.sqCapacity, (s.sq j).holds j).card := by
  rw [Multiset.card_sum]
  refine Finset.sum_le_sum fun j _ => ?_
  rw [Slot.exits, Slot.holds]
  cases (s.sq j).task with
  | none => exact le_rfl
  | some a => cases a <;> simp [Item.exits]

/-- The threads that have not exited have an exit request to look for: so none is blocked for ever. -/
theorem Stuck.joined (h : Stuck s) (hc : Counted s) (he : Exiting s) (ha : Awake s) {n : ℕ}
    (hm : s.main = .join n) : ∀ i, s.workers i = .exited := by
  by_contra hne
  obtain ⟨i, hi⟩ := not_forall.1 hne
  have hexits : s.exits = c.threadCount := by
    rw [State.exits, he.alive (by rw [hm]; rfl), hm]
    rfl
  -- Each thread either has exited, or is a reader.
  have hthreads : ∑ i, (s.workers i).exits + (∑ i, (s.workers i).reads c).card = c.threadCount := by
    rw [Multiset.card_sum, ← Finset.sum_add_distrib]
    have hone : ∀ i, (s.workers i).exits + ((s.workers i).reads c).card = 1 := by
      intro i
      obtain ⟨n, hn⟩ | hw := h.worker i
      · rw [hn]
        rfl
      · rw [hw]
        rfl
    rw [Finset.sum_congr rfl fun i _ => hone i]
    simp
  have hcount := he.count
  have hholds := exits_le_holds s
  have hreaders := congrArg Multiset.card hc.readers
  have hitems := congrArg Multiset.card hc.items
  rw [Multiset.card_add, Multiset.coe_card, Multiset.coe_card] at hreaders hitems
  obtain ⟨k, hk, hhead⟩ := h.head? hi
  have hx := hc.inhabited (by omega) hhead
  have hmain := (ha.notified i k hk hx).2
  rw [hm] at hmain
  cases hmain

/-- A pool that is not being destroyed has nothing left to do. -/
theorem Stuck.held (h : Stuck s) (hc : Counted s) (he : Exiting s) (ha : Awake s) (hpend : Pending s)
    (hp : Placed s l) (hm : s.main = .user) (hd : s.destroyed = false) : s.held l = 0 := by
  have hcontext : s.context = .eventLoop := by
    cases hctx : s.context with
    | eventLoop => rfl
    | drainCQ next =>
      refine absurd ?_ (h .suspend { s.setMain (.process next) with context := .eventLoop } rfl)
      simp only [step, hm, hctx]
  have hposted : s.posted = 0 := by
    by_contra hpos
    refine absurd ?_ (h (.tick 1) { s.setMain .drainCQ with posted := s.posted - 1 } rfl)
    simp only [step]
    rw [if_pos ⟨hm, hcontext, Nat.one_pos, Nat.one_le_iff_ne_zero.2 hpos⟩, hd, if_neg (by simp)]
  have hclosing : s.closing = false := by rw [State.closing, hd, hm]; rfl
  have hblocked : ∀ i, ∃ n, s.workers i = .blocked n ∧ (s.workers i).head? = some n := by
    intro i
    refine h.head? fun hw => ?_
    have hzero := (he.noExits hclosing).2 i
    rw [hw] at hzero
    cases hzero
  -- No blocked thread has an item in its slot.
  have hempty : ∀ i n, (s.workers i).head? = some n → (s.sq (c.index n)).task = none := by
    intro i n hn
    obtain ⟨k, hk, hhead⟩ := hblocked i
    rw [hhead] at hn
    cases hn
    by_contra hx
    have hmain := (ha.notified i n hk hx).2
    rw [hm] at hmain
    cases hmain
  have hslots : ∀ j ∈ Finset.range c.sqCapacity, (s.sq j).task = none := by
    intro j hj
    by_contra hx
    obtain hle | hle := Nat.le_total s.pushes.length s.arrivals.length
    · obtain ⟨i, n, hn, rfl⟩ := hc.has_reader hle hj hx
      exact hx (hempty i n hn)
    · obtain ⟨n, -, hn⟩ := hblocked 0
      exact hc.inhabited hle hn (hempty 0 n hn)
  have hcq : s.cqHead = none := by
    by_contra hne
    obtain hdrain | hpos | ⟨i, hi⟩ := hpend.posted hne
    · rw [State.draining, hm, hcontext] at hdrain
      cases hdrain
    · omega
    · obtain ⟨n, hn, -⟩ := hblocked i
      rw [hi] at hn
      cases hn
  have hworkers : ∀ i, (s.workers i).tasks = 0 := by
    intro i
    obtain ⟨n, hn, -⟩ := hblocked i
    rw [hn]
    rfl
  have htasks : ∀ j ∈ Finset.range c.sqCapacity, (s.sq j).tasks = 0 := by
    intro j hj
    rw [Slot.tasks, hslots j hj]
    rfl
  have hb : s.backoffSqHead = none := by
    by_contra hne
    have hwait : s.Waiting := .inl (by rw [hm]; exact hne)
    obtain htick | ⟨j, hj, hx⟩ | ⟨i, hi⟩ | hq := hpend.backoff hwait
    · rw [State.ticking, hm, hcontext] at htick
      cases htick
    · exact hx (htasks j hj)
    · exact hi (hworkers i)
    · exact hq hcq
  have hbackoff := hp.linked.backoff
  have hcompleted := hp.linked.completed
  have hdrained := hp.linked.drained
  have hreversing := hp.linked.reversing
  rw [hm] at hbackoff hdrained hreversing
  rw [show Main.backoffPtr .user s.backoffSqHead = none from hb] at hbackoff
  rw [hcq] at hcompleted
  rw [hcontext] at hdrained
  rw [State.held, NextList.isList_none.1 hbackoff, NextList.isList_none.1 hcompleted,
    NextList.isList_none.1 hdrained, NextList.isList_none.1 hreversing, Finset.sum_eq_zero htasks,
    Finset.sum_eq_zero fun i _ => hworkers i]
  rfl

theorem mayDestroy_of_advances {a : Action c K} (ha : a.advances = true) :
    MayDestroy s a := by
  cases a with
  | destroy => cases ha
  | _ => trivial

theorem Stuck.settled (h : Stuck s) (hr : Reach step MayDestroy (State.init c K) s) :
    s.main = .user ∧ s.closing = s.destroyed ∧ ∀ l, Placed s l → s.held l = 0 := by
  have hany : Reach step anyAction (State.init c K) s := hr.mono fun _ _ _ => trivial
  have hc := counted_of_reach hany
  have he := exiting_of_reach hany
  have ha := awake_of_reach hany
  have hheld : s.closing = true → ∀ l, Placed s l → s.held l = 0 := fun hcl l hp =>
    hp.held_of_isIdle (emptied_of_reach hr hcl)
  obtain ⟨l, hp⟩ := placed_of_reach hany
  have hcq : s.closing = true → s.cqHead = none := by
    intro hcl
    have hptr := hp.linked.completed
    rw [(lists_of_held (hheld hcl l hp)).2] at hptr
    exact hptr
  have hm : s.main = .user := by
    obtain hm | ⟨n, i, hm, hi⟩ := h.main hc he (fun hcl => hheld hcl l hp) hcq
    · exact hm
    · exact absurd (h.joined hc he ha hm i) hi
  have hcl : s.closing = s.destroyed := by rw [State.closing, hm]; exact Bool.or_false _
  refine ⟨hm, hcl, fun l hp => ?_⟩
  cases hd : s.destroyed with
  | true => exact hheld (hcl.trans hd) l hp
  | false => exact h.held hc he ha (pending_of_reach hany) hp hm hd

/-- **What was submitted gets done.**  From a state of a run in which the pool is destroyed only without
tasks, the threads and the event loop take a bounded number of steps, unless the user asks for more: if
each notification is followed by a tick, they come to where they cannot go on.  There the main thread is in
the code of the user, every task has been run once and its parent been resumed once, and a pool that is being
destroyed has been destroyed. -/
theorem everything_gets_done (h : Reach step MayDestroy (State.init c K) s) :
    (∀ as t, (∀ a ∈ as, a.advances = true) → exec step s as = .ok t → as.length ≤ s.measure) ∧
    (∃ as t, (∀ a ∈ as, a.advances = true) ∧ exec step s as = .ok t ∧ Stuck t) ∧
    ∀ as t, (∀ a ∈ as, a.advances = true) → exec step s as = .ok t → Stuck t →
      t.main = .user ∧ t.closing = t.destroyed ∧
        ∀ x, t.resumed.count x = t.submitted.count x ∧ t.ran.count x = t.submitted.count x := by
  have hany : Reach step anyAction (State.init c K) s := h.mono fun _ _ _ => trivial
  refine ⟨fun as t ha hs => length_le_measure hany ha hs, ?_, fun as t ha hs hstuck => ?_⟩
  · refine exists_run (I := fun t => Reach step anyAction (State.init c K) t) (μ := State.measure) hany ?_
    intro t ht hstuck
    obtain ⟨a, hstuck⟩ := not_forall.1 hstuck
    obtain ⟨u, hu⟩ := not_forall.1 hstuck
    obtain ⟨ha, hu⟩ := Classical.not_imp.1 hu
    have hu := not_not.1 hu
    exact ⟨a, u, ha, hu, ht.tail trivial hu, measure_lt ht ha hu⟩
  · have hmeets : Meets step MayDestroy s as :=
      meets_of_forall (fun a hmem _ => mayDestroy_of_advances (ha a hmem)) s
    have hreach : Reach step MayDestroy (State.init c K) t := h.trans (reach_of_exec hmeets hs)
    obtain ⟨hm, hcl, hl⟩ := hstuck.settled hreach
    obtain ⟨l, hp⟩ := placed_of_reach (hreach.mono fun _ _ _ => trivial)
    have hl := hl l hp
    refine ⟨hm, hcl, fun x => ?_⟩
    have hsubmitted := congrArg (Multiset.count x) hp.ledger.submitted
    have hran := congrArg (Multiset.count x) hp.ledger.ran
    rw [hl, zero_add, Multiset.coe_count, Multiset.coe_count] at hsubmitted
    simp only [State.held, add_eq_zero, Multiset.coe_eq_zero] at hl
    have hworkers : ∑ i, (t.workers i).ran = 0 := by
      refine Finset.sum_eq_zero fun i _ => ?_
      obtain ⟨n, hn⟩ | hw := hstuck.worker i
      · rw [hn]
        rfl
      · rw [hw]
        rfl
    rw [hworkers, hl.1.1.2, hl.1.2, hl.2] at hran
    simp only [Multiset.coe_nil, zero_add, Multiset.coe_count] at hran
    exact ⟨hsubmitted.symm, hran.trans hsubmitted.symm⟩

theorem everything_gets_done_taskRun : ∃ s, exec step (State.init twoThreads (Fin 2)) taskRun = .ok s ∧
    (s.submitted, s.resumed) = ([0, 1], []) ∧ ∃ as t, (∀ a ∈ as, a.advances = true) ∧
      exec step s as = .ok t ∧ t.resumed.count 1 = t.submitted.count 1 := by
  have hmeets : Meets step MayDestroy (State.init twoThreads (Fin 2)) taskRun := by decide +kernel
  cases h : exec step (State.init twoThreads (Fin 2)) taskRun with
  | error e =>
    have hok : (exec step (State.init twoThreads (Fin 2)) taskRun).toOption.isSome := by decide +kernel
    rw [h] at hok
    cases hok
  | ok s =>
    have hstate : (exec step (State.init twoThreads (Fin 2)) taskRun).map
        (fun s => (s.submitted, s.resumed)) = .ok ([0, 1], []) := by decide +kernel
    rw [h] at hstate
    obtain ⟨-, ⟨as, t, ha, hs, hstuck⟩, hdone⟩ := everything_gets_done (reach_of_exec hmeets h)
    exact ⟨s, rfl, Except.ok.inj hstate, as, t, ha, hs, ((hdone as t ha hs hstuck).2.2 1).1⟩

end Corral.ThreadPool
