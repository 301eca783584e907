import Corral.Lib.NextList
import Corral.ThreadPool.Exits

/-!
# `ThreadPool`: where the tasks are

* `Lists`: the backoff list, the completion list, and the two parts of the list that is being drained;
  `Linked`: the pointers are those of these lists;
* `Ledger`: a task that was submitted is in one of these lists, in a slot, with a worker thread, or has
  been resumed, and in one place only; and what has been run;
* `Placed.workerStep`, `Placed.mainStep`, `placed_of_reach`.
-/

namespace Corral.ThreadPool

open ActionMachine NextList Holdings

variable {c : Config} {K : Type*} {s t : State c K} {i : c.Thread} {j : ℕ} {w : Worker K} {x : K}

/-! ### Places -/

def Item.tasks : Item K → Multiset K
  | .task x => {x}
  | .exitRequest => 0

def Slot.tasks (a : Slot K) : Multiset K := a.task.elim 0 Item.tasks

/-- The task that a worker thread has taken and not yet completed. -/
def Worker.tasks : Worker K → Multiset K
  | .storeCutoff _ ret | .popped ret => ret.tasks
  | .run x | .loadHead x | .pushHead x _ => {x}
  | _ => 0

/-- The task, if it has been run. -/
def Worker.ran : Worker K → Multiset K
  | .loadHead x | .pushHead x _ => {x}
  | _ => 0

/-- The lists of tasks: what waits for room in the submission queue, what is completed, and of the list
that is being drained the part that is in the right order, and the part that is to be reversed. -/
structure Lists (K : Type*) where
  backoff : List K
  completed : List K
  drained : List K
  reversing : List K

/-- What is in the pool. -/
def State.held (s : State c K) (l : Lists K) : Multiset K :=
  l.backoff + ∑ j ∈ Finset.range c.sqCapacity, (s.sq j).tasks + ∑ i, (s.workers i).tasks +
    l.completed + l.drained + l.reversing

/-- The task that the main thread is about to submit. -/
def Main.submits : Main K → Option K
  | .pushToSQ (.awaitSuspend x) .compareExchange | .pushToBackoffSQ x => some x
  | _ => none

/-- Every task that was submitted and not yet resumed is in one place; and it has been run if it has left
the worker threads, or is about to. -/
structure Ledger (s : State c K) (l : Lists K) : Prop where
  submitted : (s.submitted : Multiset K) = s.held l + s.resumed
  nodup : (s.held l).Nodup
  ran : (s.ran : Multiset K) =
    ∑ i, (s.workers i).ran + l.completed + l.drained + l.reversing + s.resumed
  fresh : ∀ x, s.main.submits = some x → x ∉ s.held l

/-! ### Pointers -/

/-- The first task that is waiting for room: during `submitBackoffSQ()` it is in a local variable. -/
def Main.backoffPtr (m : Main K) (backoffSqHead : Option K) : Option K :=
  match m with
  | .submitBackoffSQ t => t
  | .pushToSQ (.submitBackoffSQ t _) .compareExchange => some t
  | .pushToSQ (.submitBackoffSQ _ next) _ => next
  | _ => backoffSqHead

/-- The loop of `submitBackoffSQ()` is running. -/
def Main.resubmits : Main K → Bool
  | .submitBackoffSQ _ | .pushToSQ (.submitBackoffSQ _ _) _ => true
  | _ => false

/-- The main thread is in the code of the user, or in a function that it has called. -/
def Main.isUser : Main K → Bool
  | .user | .pushToSQ (.awaitSuspend _) _ | .pushToSQ (.destructor _) _ | .pushToBackoffSQ _
  | .join _ => true
  | _ => false

def Context.next : Context K → Option K
  | .eventLoop => none
  | .drainCQ next => next

/-- The list that is being drained, where it is in the right order. -/
def Main.drainPtr (m : Main K) (context : Context K) : Option K :=
  match m with
  | .reverse prev _ => prev
  | .process t => t
  | _ => context.next

/-- The list that is being reversed. -/
def Main.reversePtr : Main K → Option K
  | .reverse _ curr => curr
  | _ => none

/-- The pointers of the pool are those of the lists. -/
structure Linked (s : State c K) (l : Lists K) : Prop where
  backoff : IsList s.next (s.main.backoffPtr s.backoffSqHead) l.backoff
  tail : l.backoff ≠ [] ∨ s.main.resubmits = false → s.backoffSqTailPtr = l.backoff.getLast?
  completed : IsList s.next s.cqHead l.completed
  drained : IsList s.next (s.main.drainPtr s.context) l.drained
  reversing : IsList s.next s.main.reversePtr l.reversing
  pushHead : ∀ i x head, s.workers i = .pushHead x head → s.next x = head
  resubmit : ∀ x next, s.main = .pushToSQ (.submitBackoffSQ x next) .compareExchange → s.next x = next
  context : s.main.isUser = false → s.context = .eventLoop

structure Placed (s : State c K) (l : Lists K) : Prop where
  ledger : Ledger s l
  linked : Linked s l

def Lists.empty : Lists K := ⟨[], [], [], []⟩

theorem placed_init (c : Config) : Placed (State.init c K) Lists.empty where
  ledger := by
    have hslots : ∑ j ∈ Finset.range c.sqCapacity, ((State.init c K).sq j).tasks = 0 :=
      Finset.sum_eq_zero fun _ _ => rfl
    have hworkers : ∑ i, ((State.init c K).workers i).tasks = 0 := Finset.sum_eq_zero fun _ _ => rfl
    have hran : ∑ i, ((State.init c K).workers i).ran = 0 := Finset.sum_eq_zero fun _ _ => rfl
    have hheld : (State.init c K).held Lists.empty = 0 := by
      rw [State.held, hslots, hworkers]
      rfl
    refine ⟨?_, ?_, ?_, nofun⟩
    · rw [hheld]
      rfl
    · rw [hheld]
      exact Multiset.nodup_zero
    · rw [hran]
      rfl
  linked := ⟨rfl, fun _ => rfl, rfl, rfl, rfl, nofun, nofun, fun _ => rfl⟩

/-! ### What changes one of them only -/

/-- What the ledger is about, beside the main thread. -/
def State.tasks (s : State c K) := (s.sq, s.workers, s.submitted, s.ran, s.resumed)

variable {l l' : Lists K}

theorem Ledger.congr (h : Ledger s l) (ht : t.tasks = s.tasks)
    (hm : ∀ x, t.main.submits = some x → x ∉ s.held l) : Ledger t l := by
  simp only [State.tasks, Prod.mk.injEq] at ht
  obtain ⟨hsq, hworkers, hsubmitted, hran, hresumed⟩ := ht
  have hheld : t.held l = s.held l := by rw [State.held, State.held, hsq, hworkers]
  refine ⟨?_, ?_, ?_, ?_⟩
  · rw [hsubmitted, hheld, hresumed]
    exact h.submitted
  · rw [hheld]
    exact h.nodup
  · rw [hran, hworkers, hresumed]
    exact h.ran
  · rw [hheld]
    exact hm

/-- The pointers of the lists. -/
def State.pointers (s : State c K) :=
  (s.next, s.main.backoffPtr s.backoffSqHead, s.main.resubmits, s.backoffSqTailPtr, s.cqHead,
    s.main.drainPtr s.context, s.main.reversePtr)

theorem Linked.congr (h : Linked s l) (hp : t.pointers = s.pointers)
    (hw : ∀ i x head, t.workers i = .pushHead x head → s.next x = head)
    (hr : ∀ x next, t.main = .pushToSQ (.submitBackoffSQ x next) .compareExchange → s.next x = next)
    (hc : t.main.isUser = false → t.context = .eventLoop) : Linked t l := by
  simp only [State.pointers, Prod.mk.injEq] at hp
  obtain ⟨hnext, hbackoff, hresubmits, htail, hcq, hdrain, hreverse⟩ := hp
  obtain ⟨h₁, h₂, h₃, h₄, h₅, -, -, -⟩ := h
  rw [← hnext, ← hbackoff] at h₁
  rw [← hresubmits, ← htail] at h₂
  rw [← hnext, ← hcq] at h₃
  rw [← hnext, ← hdrain] at h₄
  rw [← hnext, ← hreverse] at h₅
  rw [← hnext] at hw hr
  exact ⟨h₁, h₂, h₃, h₄, h₅, hw, hr, hc⟩

/-! ### The worker threads -/

theorem held_setWorker (hw : w.tasks = (s.workers i).tasks) (l : Lists K) :
    (s.setWorker i w).held l = s.held l := by
  have hsum := sum_update_eq (g := fun _ => Worker.tasks) (w := s.workers) (Finset.mem_univ i) hw
  unfold State.held
  exact congrArg (fun m => (l.backoff : Multiset K) + _ + m + l.completed + l.drained + l.reversing) hsum

theorem pushHead_setWorker (h : Linked s l) (hw : ∀ x head, w = .pushHead x head → s.next x = head)
    (i' : c.Thread) (x : K) (head : Option K)
    (hx : (s.setWorker i w).workers i' = .pushHead x head) : s.next x = head := by
  by_cases hne : i' = i
  · subst hne
    rw [workers_setWorker_self] at hx
    exact hw x head hx
  · rw [workers_setWorker_of_ne hne] at hx
    exact h.pushHead i' x head hx

theorem Linked.setWorker (h : Linked s l) (hw : ∀ x head, w = .pushHead x head → s.next x = head) :
    Linked (s.setWorker i w) l :=
  h.congr rfl (pushHead_setWorker h hw) h.resubmit h.context

/-- A thread goes on, with the task that it had. -/
theorem Placed.setWorker (h : Placed s l) (hw : w.tasks = (s.workers i).tasks)
    (hr : w.ran = (s.workers i).ran) (hp : ∀ x head, w ≠ .pushHead x head) :
    Placed (s.setWorker i w) l where
  ledger := by
    have hheld := held_setWorker hw l
    have hran := sum_update_eq (g := fun _ => Worker.ran) (w := s.workers) (Finset.mem_univ i) hr
    refine ⟨?_, ?_, ?_, ?_⟩
    · rw [hheld]
      exact h.ledger.submitted
    · rw [hheld]
      exact h.ledger.nodup
    · refine h.ledger.ran.trans ?_
      rw [← hran]
      rfl
    · rw [hheld]
      exact h.ledger.fresh
  linked := h.linked.setWorker fun x head heq => absurd heq (hp x head)

/-- Nothing changes that a list or a task is about. -/
theorem Placed.congr (h : Placed s l) (ht : t.tasks = s.tasks) (hp : t.pointers = s.pointers)
    (hm : t.main = s.main) (hc : t.context = s.context) : Placed t l where
  ledger := h.ledger.congr ht (by rw [hm]; exact h.ledger.fresh)
  linked := by
    have hw : t.workers = s.workers := congrArg (fun p => p.2.1) ht
    refine h.linked.congr hp ?_ ?_ ?_
    · rw [hw]
      exact h.linked.pushHead
    · rw [hm]
      exact h.linked.resubmit
    · rw [hm, hc]
      exact h.linked.context

theorem Placed.setDequeuing (h : Placed s l) (hj : j ∈ Finset.range c.sqCapacity) (b : Bool) :
    Placed (s.setDequeuing j b) l where
  ledger := by
    have hsum := sum_update_eq (g := fun _ => Slot.tasks) (w := s.sq)
      (v := { s.sq j with dequeuing := b }) hj rfl
    have hheld : (s.setDequeuing j b).held l = s.held l :=
      congrArg (fun m => (l.backoff : Multiset K) + m + _ + l.completed + l.drained + l.reversing) hsum
    refine ⟨?_, ?_, h.ledger.ran, ?_⟩
    · exact h.ledger.submitted.trans (congrArg (· + _) hheld.symm)
    · exact hheld.symm ▸ h.ledger.nodup
    · intro y hy
      exact hheld.symm ▸ h.ledger.fresh y hy
  linked := h.linked.congr rfl h.linked.pushHead h.linked.resubmit h.linked.context

/-- The item goes from its slot to the thread. -/
theorem held_take {head : ℕ} {ret : Item K} (hx : (s.sq (c.index head)).task = some ret)
    (hi : (s.workers i).tasks = 0) (hw : w.tasks = ret.tasks) (l : Lists K) :
    ((s.setTask (c.index head) none).setWorker i w).held l = s.held l := by
  have hslots := sum_update_loss (g := fun _ => Slot.tasks) (w := s.sq)
    (v := { s.sq (c.index head) with task := none }) (m := ret.tasks)
    (index_mem c head) (by simp [Slot.tasks, hx])
  have hworkers := sum_update_gain (g := fun _ => Worker.tasks) (w := s.workers) (v := w)
    (m := ret.tasks) (Finset.mem_univ i) (by rw [hi, hw, zero_add])
  unfold State.held
  rw [hslots]
  show (l.backoff : Multiset K) + _ + ∑ i', (Function.update s.workers i w i').tasks + _ + _ + _ = _
  rw [hworkers]
  simp only [State.setWorker, State.setTask]
  abel

/-- A task is in one place. -/
theorem Ledger.count_le_one [DecidableEq K] (h : Ledger s l) (x : K) :
    l.backoff.count x + (∑ j ∈ Finset.range c.sqCapacity, (s.sq j).tasks).count x +
      (∑ i, (s.workers i).tasks).count x + l.completed.count x + l.drained.count x +
      l.reversing.count x ≤ 1 := by
  have hcount := Multiset.nodup_iff_count_le_one.1 h.nodup x
  simpa only [State.held, Multiset.count_add, Multiset.coe_count] using hcount

theorem one_le_count_workers [DecidableEq K] (hx : x ∈ (s.workers i).tasks) :
    1 ≤ (∑ i, (s.workers i).tasks).count x :=
  Multiset.one_le_count_iff_mem.2 (Multiset.mem_sum.2 ⟨i, Finset.mem_univ i, hx⟩)

theorem Ledger.nodup_lists (h : Ledger s l) : l.backoff.Nodup ∧ l.drained.Nodup ∧ l.reversing.Nodup := by
  classical
  refine ⟨?_, ?_, ?_⟩ <;> refine List.nodup_iff_count_le_one.2 fun x => ?_ <;>
  · have := h.count_le_one x
    omega

/-- What a thread has is in none of the lists. -/
theorem Ledger.notMem_lists (h : Ledger s l) (hx : x ∈ (s.workers i).tasks) :
    x ∉ l.backoff ∧ x ∉ l.completed ∧ x ∉ l.drained ∧ x ∉ l.reversing := by
  classical
  have hcount := h.count_le_one x
  have hworkers := one_le_count_workers hx
  refine ⟨?_, ?_, ?_, ?_⟩ <;> exact List.count_eq_zero.1 (by omega)

/-- What is waiting for room is nowhere else. -/
theorem Ledger.notMem_of_backoff (h : Ledger s l) (hx : x ∈ l.backoff) :
    x ∉ l.completed ∧ x ∉ l.drained ∧ x ∉ l.reversing ∧ ∀ i, x ∉ (s.workers i).tasks := by
  classical
  have hcount := h.count_le_one x
  have hbackoff := List.one_le_count_iff.2 hx
  refine ⟨?_, ?_, ?_, fun i hi => ?_⟩
  · exact List.count_eq_zero.1 (by omega)
  · exact List.count_eq_zero.1 (by omega)
  · exact List.count_eq_zero.1 (by omega)
  · have hworkers := one_le_count_workers hi
    omega

/-- What is to be reversed is nowhere else. -/
theorem Ledger.notMem_of_reversing (h : Ledger s l) (hx : x ∈ l.reversing) :
    x ∉ l.backoff ∧ x ∉ l.completed ∧ x ∉ l.drained ∧ ∀ i, x ∉ (s.workers i).tasks := by
  classical
  have hcount := h.count_le_one x
  have hreversing := List.one_le_count_iff.2 hx
  refine ⟨?_, ?_, ?_, fun i hi => ?_⟩
  · exact List.count_eq_zero.1 (by omega)
  · exact List.count_eq_zero.1 (by omega)
  · exact List.count_eq_zero.1 (by omega)
  · have hworkers := one_le_count_workers hi
    omega

theorem Ledger.thread_eq (h : Ledger s l) {i' : c.Thread} (hx : x ∈ (s.workers i).tasks)
    (hx' : x ∈ (s.workers i').tasks) : i = i' := by
  have hle : ∑ i, (s.workers i).tasks ≤ s.held l := by
    unfold State.held
    exact (Multiset.le_add_left _ _).trans ((Multiset.le_add_right _ _).trans
      ((Multiset.le_add_right _ _).trans (Multiset.le_add_right _ _)))
  exact eq_of_mem (Multiset.nodup_of_le hle h.nodup) (Finset.mem_univ i) (Finset.mem_univ i') hx hx'

theorem Placed.take (h : Placed s l) {head : ℕ} {ret : Item K}
    (hx : (s.sq (c.index head)).task = some ret) (hi : (s.workers i).tasks = 0)
    (hr : (s.workers i).ran = 0) (hw : w.tasks = ret.tasks) (hr' : w.ran = 0)
    (hp : ∀ x head, w ≠ .pushHead x head) :
    Placed { (s.setTask (c.index head) none).setWorker i w with
      takes := s.takes ++ [c.index head] } l where
  ledger := by
    have hheld := held_take hx hi hw l
    have hran := sum_update_eq (g := fun _ => Worker.ran) (w := s.workers) (v := w) (Finset.mem_univ i)
      (hr'.trans hr.symm)
    refine ⟨?_, ?_, ?_, ?_⟩
    · exact h.ledger.submitted.trans (congrArg (· + _) hheld.symm)
    · exact hheld.symm ▸ h.ledger.nodup
    · refine h.ledger.ran.trans ?_
      rw [← hran]
      rfl
    · intro x hx
      exact hheld.symm ▸ h.ledger.fresh x hx
  linked := by
    have hl : Linked (s.setTask (c.index head) none) l :=
      h.linked.congr rfl h.linked.pushHead h.linked.resubmit h.linked.context
    exact hl.congr rfl (pushHead_setWorker hl fun x head heq => absurd heq (hp x head)) hl.resubmit
      hl.context

/-- The function of a task is called. -/
theorem Placed.run (h : Placed s l) (hw : s.workers i = .run x) :
    Placed { s.setWorker i (.loadHead x) with ran := s.ran ++ [x] } l where
  ledger := by
    have hheld := held_setWorker (i := i) (w := .loadHead x) (by rw [hw]; rfl) l
    have hran := sum_update_gain (g := fun _ => Worker.ran) (w := s.workers) (v := .loadHead x)
      (m := {x}) (Finset.mem_univ i) (by rw [hw]; rfl)
    refine ⟨?_, ?_, ?_, ?_⟩
    · exact h.ledger.submitted.trans (congrArg (· + _) hheld.symm)
    · exact hheld.symm ▸ h.ledger.nodup
    · show ((s.ran ++ [x] : List K) : Multiset K) =
        ∑ i', (Function.update s.workers i (.loadHead x) i').ran + _ + _ + _ + _
      rw [← Multiset.coe_add, Multiset.coe_singleton, h.ledger.ran, hran]
      simp only [State.setWorker]
      abel
    · intro y hy
      exact hheld.symm ▸ h.ledger.fresh y hy
  linked := h.linked.congr rfl (pushHead_setWorker h.linked nofun) h.linked.resubmit h.linked.context

variable [DecidableEq K]

/-- The link of a task changes that only its thread knows. -/
theorem Placed.loadHead (h : Placed s l) (hw : s.workers i = .loadHead x) :
    Placed ((s.setNext x s.cqHead).setWorker i (.pushHead x s.cqHead)) l where
  ledger := by
    have htasks : (Worker.pushHead x s.cqHead).tasks = (s.workers i).tasks := by rw [hw]; rfl
    have hheld := held_setWorker htasks l
    have hran := sum_update_eq (g := fun _ => Worker.ran) (w := s.workers) (v := .pushHead x s.cqHead)
      (Finset.mem_univ i) (by rw [hw]; rfl)
    refine ⟨?_, ?_, ?_, ?_⟩
    · exact h.ledger.submitted.trans (congrArg (· + _) hheld.symm)
    · exact hheld.symm ▸ h.ledger.nodup
    · refine h.ledger.ran.trans ?_
      rw [← hran]
      rfl
    · intro y hy
      exact hheld.symm ▸ h.ledger.fresh y hy
  linked := by
    have hx : x ∈ (s.workers i).tasks := by
      rw [hw]
      exact Multiset.mem_singleton_self x
    obtain ⟨hbackoff, hcompleted, hdrained, hreversing⟩ := h.ledger.notMem_lists hx
    refine ⟨h.linked.backoff.update hbackoff _, h.linked.tail, h.linked.completed.update hcompleted _,
      h.linked.drained.update hdrained _, h.linked.reversing.update hreversing _, ?_, ?_,
      h.linked.context⟩
    · intro i' y head hy
      by_cases hne : i' = i
      · subst hne
        rw [workers_setWorker_self] at hy
        cases hy
        exact Function.update_self _ _ _
      · rw [workers_setWorker_of_ne hne] at hy
        have hyx : y ≠ x := by
          rintro rfl
          have hy' : y ∈ (s.workers i').tasks := by
            rw [show s.workers i' = .pushHead y head from hy]
            exact Multiset.mem_singleton_self y
          exact hne (h.ledger.thread_eq hy' hx)
        exact (Function.update_of_ne hyx _ _).trans (h.linked.pushHead i' y head hy)
    · intro y next hy
      have hyx : y ≠ x := by
        rintro rfl
        have hptr := h.linked.backoff
        rw [show s.main = _ from hy] at hptr
        obtain ⟨l', hl', -⟩ := isList_some.1 hptr
        rw [hl'] at hbackoff
        exact hbackoff List.mem_cons_self
      exact (Function.update_of_ne hyx _ _).trans (h.linked.resubmit y next hy)

omit [DecidableEq K] in
/-- A task goes from its thread to the completion list. -/
theorem Placed.pushHead (h : Placed s l) (hw : s.workers i = .pushHead x s.cqHead)
    (hi : w.tasks = 0) (hr : w.ran = 0) (hp : ∀ x head, w ≠ .pushHead x head) :
    Placed { s.setWorker i w with cqHead := some x } { l with completed := x :: l.completed } where
  ledger := by
    have htasks := sum_update_loss (g := fun _ => Worker.tasks) (w := s.workers) (v := w) (m := {x})
      (Finset.mem_univ i) (by rw [hw, hi, zero_add]; rfl)
    have hran := sum_update_loss (g := fun _ => Worker.ran) (w := s.workers) (v := w) (m := {x})
      (Finset.mem_univ i) (by rw [hw, hr, zero_add]; rfl)
    have hheld : State.held { s.setWorker i w with cqHead := some x }
        { l with completed := x :: l.completed } = s.held l := by
      unfold State.held
      rw [htasks]
      simp only [State.setWorker, ← Multiset.cons_coe, ← Multiset.singleton_add]
      abel
    refine ⟨?_, ?_, ?_, ?_⟩
    · exact h.ledger.submitted.trans (congrArg (· + _) hheld.symm)
    · exact hheld.symm ▸ h.ledger.nodup
    · refine h.ledger.ran.trans ?_
      rw [hran]
      simp only [State.setWorker, ← Multiset.cons_coe, ← Multiset.singleton_add]
      abel
    · intro y hy
      exact hheld.symm ▸ h.ledger.fresh y hy
  linked := by
    have hnext : s.next x = s.cqHead := h.linked.pushHead i x _ hw
    refine ⟨h.linked.backoff, h.linked.tail, ⟨rfl, ?_⟩, h.linked.drained, h.linked.reversing, ?_,
      h.linked.resubmit, h.linked.context⟩
    · show IsList s.next (s.next x) l.completed
      rw [hnext]
      exact h.linked.completed
    · exact pushHead_setWorker h.linked fun x head heq => absurd heq (hp x head)

/-- Only `pushToCQ()` changes a list. -/
theorem Placed.workerStep (h : Placed s l) (hs : WorkerStep s i t) :
    ∃ l', Placed t l' ∧ (l' = l ∨ ∃ x, s.workers i = .pushHead x s.cqHead) := by
  cases hs with
  | fetchAdd hw =>
    exact ⟨l, (h.setWorker (i := i) (w := .exchange s.sqHead) (by rw [hw]; rfl) (by rw [hw]; rfl)
      (by simp)).congr rfl rfl rfl rfl, .inl rfl⟩
  | @take head ret w hw hx hw' =>
    refine ⟨l, h.take hx ?_ ?_ ?_ ?_ ?_, .inl rfl⟩
    · obtain hw | ⟨spins, cutoff, hw⟩ := hw <;> rw [hw] <;> rfl
    · obtain hw | ⟨spins, cutoff, hw⟩ := hw <;> rw [hw] <;> rfl
    · obtain rfl | ⟨spins, rfl⟩ := hw' <;> rfl
    · obtain rfl | ⟨spins, rfl⟩ := hw' <;> rfl
    · obtain rfl | ⟨spins, rfl⟩ := hw' <;> simp
  | @miss head w hw hx hw' =>
    refine ⟨l, h.setWorker (Eq.trans (b := 0) ?_ ?_) (Eq.trans (b := 0) ?_ ?_) ?_, .inl rfl⟩
    · obtain rfl | ⟨spins, cutoff, rfl⟩ | rfl := hw' <;> rfl
    · obtain hw | ⟨spins, cutoff, hw⟩ := hw <;> rw [hw] <;> rfl
    · obtain rfl | ⟨spins, cutoff, rfl⟩ | rfl := hw' <;> rfl
    · obtain hw | ⟨spins, cutoff, hw⟩ := hw <;> rw [hw] <;> rfl
    · obtain rfl | ⟨spins, cutoff, rfl⟩ | rfl := hw' <;> simp
  | loadCutoff hw => exact ⟨l, h.setWorker (by rw [hw]; rfl) (by rw [hw]; rfl) (by simp), .inl rfl⟩
  | @storeCutoff spins ret hw =>
    exact ⟨l, (h.setWorker (i := i) (w := .popped ret) (by rw [hw]; rfl) (by rw [hw]; rfl)
      (by simp)).congr rfl rfl rfl rfl, .inl rfl⟩
  | startDequeuing hw =>
    exact ⟨l, (h.setDequeuing (index_mem c _) true).setWorker (by rw [State.setDequeuing, hw]; rfl)
      (by rw [State.setDequeuing, hw]; rfl) (by simp), .inl rfl⟩
  | block hw hx => exact ⟨l, h.setWorker (by rw [hw]; rfl) (by rw [hw]; rfl) (by simp), .inl rfl⟩
  | pass hw hx => exact ⟨l, h.setWorker (by rw [hw]; rfl) (by rw [hw]; rfl) (by simp), .inl rfl⟩
  | wake hw => exact ⟨l, h.setWorker (by rw [hw]; rfl) (by rw [hw]; rfl) (by simp), .inl rfl⟩
  | stopDequeuing hw =>
    exact ⟨l, (h.setDequeuing (index_mem c _) false).setWorker (by rw [State.setDequeuing, hw]; rfl)
      (by rw [State.setDequeuing, hw]; rfl) (by simp), .inl rfl⟩
  | exit hw => exact ⟨l, h.setWorker (by rw [hw]; rfl) (by rw [hw]; rfl) (by simp), .inl rfl⟩
  | start hw => exact ⟨l, h.setWorker (by rw [hw]; rfl) (by rw [hw]; rfl) (by simp), .inl rfl⟩
  | run hw => exact ⟨l, h.run hw, .inl rfl⟩
  | loadHead hw => exact ⟨l, h.loadHead hw, .inl rfl⟩
  | @pushHead x head w hw hx hw' =>
    subst hx
    refine ⟨_, h.pushHead hw ?_ ?_ ?_, .inr ⟨x, hw⟩⟩
    · obtain ⟨-, rfl⟩ | ⟨-, rfl⟩ := hw' <;> rfl
    · obtain ⟨-, rfl⟩ | ⟨-, rfl⟩ := hw' <;> rfl
    · obtain ⟨-, rfl⟩ | ⟨-, rfl⟩ := hw' <;> simp
  | retry hw => exact ⟨l, h.setWorker (by rw [hw]; rfl) (by rw [hw]; rfl) (by simp), .inl rfl⟩
  | post hw =>
    exact ⟨l, (h.setWorker (i := i) (w := .fetchAdd) (by rw [hw]; rfl) (by rw [hw]; rfl)
      (by simp)).congr rfl rfl rfl rfl, .inl rfl⟩

/-! ### The main thread -/

omit [DecidableEq K] in
theorem Placed.setMain (h : Placed s l) {m : Main K} (hp : (s.setMain m).pointers = s.pointers)
    (hs : ∀ x, m.submits = some x → x ∉ s.held l)
    (hr : ∀ x next, m = .pushToSQ (.submitBackoffSQ x next) .compareExchange → s.next x = next)
    (hc : m.isUser = false → s.context = .eventLoop) : Placed (s.setMain m) l :=
  ⟨h.ledger.congr rfl hs, h.linked.congr hp h.linked.pushHead hr hc⟩

omit [DecidableEq K] in
/-- A task is submitted into a slot, or an `ExitRequest` is. -/
theorem held_push {m : Main K} {a : Item K} (hx : (s.sq s.tailIndex).task = none) (l : Lists K) :
    ((s.setTask s.tailIndex (some a)).setMain m).held l = s.held l + a.tasks := by
  have hslots := sum_update_gain (i := s.tailIndex) (g := fun _ => Slot.tasks) (w := s.sq)
    (v := { s.sq s.tailIndex with task := some a }) (m := a.tasks) (index_mem c s.sqTail)
    (by simp [Slot.tasks, hx])
  unfold State.held
  show (l.backoff : Multiset K) + ∑ j ∈ Finset.range c.sqCapacity, (Function.update s.sq _ _ j).tasks +
    _ + _ + _ + _ = _
  rw [hslots]
  simp only [State.setMain, State.setTask]
  abel

omit [DecidableEq K] in
/-- A task is submitted. -/
theorem Ledger.submit (h : Ledger s l) {backoff : List K} (hx : x ∉ s.held l)
    (hheld : t.held { l with backoff := backoff } = s.held l + {x})
    (hs : (t.workers, t.submitted, t.ran, t.resumed) = (s.workers, s.submitted ++ [x], s.ran, s.resumed))
    (hm : t.main.submits = none) : Ledger t { l with backoff := backoff } := by
  simp only [Prod.mk.injEq] at hs
  obtain ⟨hworkers, hsubmitted, hran, hresumed⟩ := hs
  refine ⟨?_, ?_, ?_, ?_⟩
  · rw [hsubmitted, hresumed, hheld, ← Multiset.coe_add, Multiset.coe_singleton, h.submitted]
    exact add_right_comm _ _ _
  · rw [hheld]
    refine Multiset.nodup_add.2 ⟨h.nodup, Multiset.nodup_singleton x, ?_⟩
    exact Multiset.disjoint_singleton.2 hx
  · rw [hran, hresumed, hworkers]
    exact h.ran
  · rw [hm]
    exact nofun

/-- The tasks that wait for room, when the item of the caller is in its slot. -/
def Caller.leaves : Caller K → List K → List K
  | .submitBackoffSQ _ _, backoff => backoff.tail
  | _, backoff => backoff

omit [DecidableEq K] in
theorem Placed.push (h : Placed s l) {caller : Caller K}
    (hm : s.main = .pushToSQ caller .compareExchange) (hx : (s.sq s.tailIndex).task = none) :
    Placed { (s.setTask s.tailIndex (some caller.item)).setMain (.pushToSQ caller .loadDequeuing) with
      pushes := s.pushes ++ [s.tailIndex]
      submitted := s.submitted ++ caller.submits } { l with backoff := caller.leaves l.backoff } := by
  have hheld := held_push (m := .pushToSQ caller .loadDequeuing) (a := caller.item) hx
  cases caller with
  | awaitSuspend x =>
    have hfresh : x ∉ s.held l := h.ledger.fresh x (by rw [hm]; rfl)
    refine ⟨h.ledger.submit hfresh (hheld l) rfl rfl, ?_⟩
    exact h.linked.congr (by rw [State.pointers, State.pointers, hm]; rfl) h.linked.pushHead nofun nofun
  | submitBackoffSQ x next =>
    have hnext := h.linked.resubmit x next hm
    obtain ⟨hb, htail, hcompleted, hdrained, hreversing, hpush, -, hc⟩ := h.linked
    rw [hm] at hb htail hdrained hreversing hc
    obtain ⟨backoff, hl, hb⟩ := isList_some.1 hb
    rw [hnext] at hb
    have hsplit : ∀ s : State c K, s.held l = s.held { l with backoff := backoff } + {x} := by
      intro s
      unfold State.held
      rw [hl, ← Multiset.cons_coe, ← Multiset.singleton_add]
      abel
    have hheld' := (hheld { l with backoff := backoff }).trans (hsplit s).symm
    have hleaves : (Caller.submitBackoffSQ x next).leaves l.backoff = backoff := by rw [hl]; rfl
    rw [hleaves]
    refine ⟨⟨?_, ?_, h.ledger.ran, nofun⟩,
      ⟨hb, ?_, hcompleted, hdrained, hreversing, hpush, nofun, hc⟩⟩
    · show ((s.submitted ++ [] : List K) : Multiset K) = _
      rw [List.append_nil]
      exact h.ledger.submitted.trans (congrArg (· + _) hheld'.symm)
    · exact hheld'.symm ▸ h.ledger.nodup
    · rintro (hne | hno)
      · have htail := htail (.inl (by rw [hl]; nofun))
        rw [hl] at htail
        obtain ⟨y, l', rfl⟩ := List.exists_cons_of_ne_nil hne
        exact htail
      · cases hno
  | destructor n =>
    have hheld' : _ = s.held l := (hheld l).trans (add_zero _)
    refine ⟨⟨?_, ?_, h.ledger.ran, nofun⟩, ?_⟩
    · show ((s.submitted ++ [] : List K) : Multiset K) = _
      rw [List.append_nil]
      exact h.ledger.submitted.trans (congrArg (· + _) hheld'.symm)
    · exact hheld'.symm ▸ h.ledger.nodup
    · exact h.linked.congr (by rw [State.pointers, State.pointers, hm]; rfl) h.linked.pushHead nofun
        nofun

omit [DecidableEq K] in
/-- `pushToSQ()` goes on after the item has been pushed. -/
theorem Placed.pushed (h : Placed s l) {caller : Caller K} {op op' : Push}
    (hm : s.main = .pushToSQ caller op) (hop : op ≠ .compareExchange) (hop' : op' ≠ .compareExchange) :
    Placed (s.setMain (.pushToSQ caller op')) l := by
  refine h.setMain ?_ ?_ ?_ ?_
  · rw [State.pointers, State.pointers, hm]
    cases caller <;> cases op <;> cases op' <;> first | rfl | contradiction
  · intro x hx
    cases caller <;> cases op' <;> contradiction
  · rintro x next ⟨⟩
    exact absurd rfl hop'
  · intro hu
    refine h.linked.context ?_
    rw [hm]
    cases caller <;> exact hu

omit [DecidableEq K] in
/-- The caller of `pushToSQ()` goes on. -/
theorem Placed.advance (h : Placed s l) {caller : Caller K} {m : Main K}
    (hm : s.main = .pushToSQ caller .advance)
    (hm' : (∃ x, caller = .awaitSuspend x ∧ m = .user) ∨
      (∃ x next, caller = .submitBackoffSQ x next ∧ m = .submitBackoffSQ next) ∨
      ∃ n, caller = .destructor n ∧
        (n + 1 < c.threadCount ∧ m = .pushToSQ (.destructor (n + 1)) .compareExchange ∨
          c.threadCount ≤ n + 1 ∧ m = .join 0)) :
    Placed { s.setMain m with sqTail := c.advance s.sqTail } l := by
  have hp : (s.setMain m).pointers = s.pointers := by
    rw [State.pointers, State.pointers, hm]
    obtain ⟨x, rfl, rfl⟩ | ⟨x, next, rfl, rfl⟩ | ⟨n, rfl, ⟨-, rfl⟩ | ⟨-, rfl⟩⟩ := hm' <;> rfl
  have hplaced : Placed (s.setMain m) l := by
    refine h.setMain hp ?_ ?_ ?_
    · intro x hx
      obtain ⟨x, rfl, rfl⟩ | ⟨x, next, rfl, rfl⟩ | ⟨n, rfl, ⟨-, rfl⟩ | ⟨-, rfl⟩⟩ := hm' <;> cases hx
    · intro x next heq
      obtain ⟨x, rfl, rfl⟩ | ⟨x, next, rfl, rfl⟩ | ⟨n, rfl, ⟨-, rfl⟩ | ⟨-, rfl⟩⟩ := hm' <;> cases heq
    · intro hu
      refine h.linked.context ?_
      rw [hm]
      obtain ⟨x, rfl, rfl⟩ | ⟨x, next, rfl, rfl⟩ | ⟨n, rfl, ⟨-, rfl⟩ | ⟨-, rfl⟩⟩ := hm' <;> first
        | rfl
        | cases hu
  exact hplaced.congr rfl rfl rfl rfl

/-- What has been resumed as often as it was submitted is not in the pool. -/
theorem Ledger.notMem_of_isActive (h : Ledger s l) (hx : s.isActive x = false) : x ∉ s.held l := by
  have hcount := congrArg (Multiset.count x) h.submitted
  rw [Multiset.count_add, Multiset.coe_count, Multiset.coe_count] at hcount
  simp only [State.isActive, decide_eq_false_iff_not, not_lt] at hx
  exact Multiset.count_eq_zero.1 (by omega)

omit [DecidableEq K] in
theorem Ledger.notMem_of_fresh (h : x ∉ s.held l) :
    x ∉ l.backoff ∧ x ∉ l.completed ∧ x ∉ l.drained ∧ x ∉ l.reversing ∧
      ∀ i, x ∉ (s.workers i).tasks := by
  simp only [State.held, Multiset.mem_add, not_or, Multiset.mem_coe] at h
  obtain ⟨⟨⟨⟨⟨hb, -⟩, hw⟩, hc⟩, hd⟩, hr⟩ := h
  exact ⟨hb, hc, hd, hr, fun i hi => hw (Multiset.mem_sum.2 ⟨i, Finset.mem_univ i, hi⟩)⟩

/-- A link changes of a task that is with no thread. -/
theorem pushHead_update {next : K → Option K}
    (h : ∀ i y head, s.workers i = .pushHead y head → next y = head)
    (hx : ∀ i, x ∉ (s.workers i).tasks) (p : Option K) :
    ∀ i y head, s.workers i = .pushHead y head → Function.update next x p y = head := by
  intro i y head hy
  have hne : y ≠ x := by
    rintro rfl
    refine hx i ?_
    rw [hy]
    exact Multiset.mem_singleton_self y
  exact (Function.update_of_ne hne _ _).trans (h i y head hy)

/-- A task goes to the end of the backoff list. -/
theorem Linked.pushToBackoffSQ (h : Placed s l) (hm : s.main = .pushToBackoffSQ x) :
    Linked { ((s.setNext x none).storeTail x).setMain .user with
      backoffSqTailPtr := some x
      submitted := s.submitted ++ [x] } { l with backoff := l.backoff ++ [x] } := by
  have hfresh : x ∉ s.held l := h.ledger.fresh x (by rw [hm]; rfl)
  obtain ⟨hxb, hxc, hxd, hxr, hxw⟩ := Ledger.notMem_of_fresh hfresh
  obtain ⟨hb, htail, hcompleted, hdrained, hreversing, hpush, -, -⟩ := h.linked
  have htail := htail (.inr (by rw [hm]; rfl))
  rw [hm] at hb hdrained hreversing
  have hpush := pushHead_update hpush hxw none
  have hcompleted := hcompleted.update hxc none
  have hdrained := hdrained.update hxd none
  have hreversing := hreversing.update hxr none
  cases hy : s.backoffSqTailPtr with
  | none =>
    have hempty : l.backoff = [] := List.getLast?_eq_none_iff.1 (htail.symm.trans hy)
    rw [storeTail_of_none (s := s.setNext x none) hy]
    refine ⟨?_, fun _ => by simp, hcompleted, hdrained, hreversing, hpush, nofun, nofun⟩
    show IsList (Function.update s.next x none) (some x) (l.backoff ++ [x])
    rw [hempty]
    exact ⟨rfl, Function.update_self _ _ _⟩
  | some y =>
    have hyl : l.backoff.getLast? = some y := htail.symm.trans hy
    have hyb : y ∈ l.backoff := List.mem_of_getLast? hyl
    have hyx : x ≠ y := fun heq => hxb (heq ▸ hyb)
    obtain ⟨hyc, hyd, hyr, hyw⟩ := h.ledger.notMem_of_backoff hyb
    rw [storeTail_of_some (s := s.setNext x none) hy]
    refine ⟨?_, fun _ => by simp, hcompleted.update hyc _, hdrained.update hyd _,
      hreversing.update hyr _, pushHead_update hpush hyw _, nofun, nofun⟩
    refine hb.concat hyl h.ledger.nodup_lists.1 (Function.update_self _ _ _) ?_ ?_
    · exact (Function.update_of_ne hyx _ _).trans (Function.update_self _ _ _)
    · intro z hz hzy
      have hzx : z ≠ x := fun heq => hxb (heq ▸ hz)
      exact (Function.update_of_ne hzy _ _).trans (Function.update_of_ne hzx _ _)

theorem Placed.pushToBackoffSQ (h : Placed s l) (hm : s.main = .pushToBackoffSQ x) :
    Placed { ((s.setNext x none).storeTail x).setMain .user with
      backoffSqTailPtr := some x
      submitted := s.submitted ++ [x] } { l with backoff := l.backoff ++ [x] } where
  linked := Linked.pushToBackoffSQ h hm
  ledger := by
    have hfresh : x ∉ s.held l := h.ledger.fresh x (by rw [hm]; rfl)
    obtain ⟨next, head, heq⟩ := storeTail_eq (s.setNext x none) x
    rw [heq]
    refine h.ledger.submit hfresh ?_ rfl rfl
    unfold State.held
    simp only [State.setMain, State.setNext, ← Multiset.coe_add, Multiset.coe_singleton]
    abel

/-! ### The list that is being drained -/

omit [DecidableEq K] in
/-- Tasks go from one part of what has been run to another one. -/
theorem Ledger.relist (h : Ledger s l) {completed drained reversing : List K} (ht : t.tasks = s.tasks)
    (hl : (completed + drained + reversing : Multiset K) = l.completed + l.drained + l.reversing)
    (hm : t.main.submits = none) : Ledger t ⟨l.backoff, completed, drained, reversing⟩ := by
  simp only [State.tasks, Prod.mk.injEq] at ht
  obtain ⟨hsq, hworkers, hsubmitted, hran, hresumed⟩ := ht
  have hheld : t.held ⟨l.backoff, completed, drained, reversing⟩ = s.held l := by
    unfold State.held
    rw [hsq, hworkers, add_assoc _ (completed : Multiset K), add_assoc _ (completed + _ : Multiset K), hl,
      ← add_assoc, ← add_assoc]
  refine ⟨?_, ?_, ?_, ?_⟩
  · rw [hsubmitted, hresumed, hheld]
    exact h.submitted
  · rw [hheld]
    exact h.nodup
  · show (t.ran : Multiset K) = ∑ i, (t.workers i).ran + completed + drained + reversing + t.resumed
    rw [hran, hresumed, hworkers, add_assoc _ (completed : Multiset K),
      add_assoc _ (completed + _ : Multiset K), hl, ← add_assoc, ← add_assoc]
    exact h.ran
  · rw [hm]
    exact nofun

omit [DecidableEq K] in
/-- The completion list is taken over. -/
theorem Placed.drainCQ (h : Placed s l) {m : Main K} (hm : s.main = .drainCQ)
    (hm' : s.cqHead = none ∧ m = .drained ∨ s.cqHead ≠ none ∧ m = .reverse none s.cqHead) :
    Placed { s.setMain m with cqHead := none } ⟨l.backoff, [], [], l.completed⟩ := by
  obtain ⟨hb, htail, hcompleted, hdrained, hreversing, hpush, -, hc⟩ := h.linked
  have hc := hc (by rw [hm]; rfl)
  rw [hm] at hb htail hdrained hreversing
  rw [show s.context = _ from hc] at hdrained
  have hr : l.reversing = [] := isList_none.1 hreversing
  have hd : l.drained = [] := isList_none.1 hdrained
  have hlists : (([] : List K) + ([] : List K) + l.completed : Multiset K) =
      l.completed + l.drained + l.reversing := by
    rw [hr, hd]
    simp
  obtain ⟨hq, rfl⟩ | ⟨hq, rfl⟩ := hm'
  · rw [hq] at hcompleted
    refine ⟨h.ledger.relist rfl hlists rfl, hb, htail, rfl, ?_, hcompleted, hpush, nofun, fun _ => hc⟩
    show s.context.next = none
    rw [hc]
    rfl
  · exact ⟨h.ledger.relist rfl hlists rfl, hb, htail, rfl, rfl, hcompleted, hpush, nofun, fun _ => hc⟩

/-- One task is turned around. -/
theorem Placed.reverse (h : Placed s l) {prev : Option K} (hm : s.main = .reverse prev (some x)) :
    Placed ((s.setNext x prev).setMain (.reverse (some x) (s.next x)))
      ⟨l.backoff, l.completed, x :: l.drained, l.reversing.tail⟩ := by
  obtain ⟨hb, htail, hcompleted, hdrained, hreversing, hpush, -, hc⟩ := h.linked
  have hc := hc (by rw [hm]; rfl)
  rw [hm] at hb htail hdrained hreversing
  obtain ⟨rest, hl, hrest⟩ := isList_some.1 hreversing
  obtain ⟨hxb, hxc, hxd, hxw⟩ := h.ledger.notMem_of_reversing (x := x) (by rw [hl]; simp)
  have hxr : x ∉ rest := by
    have hnodup := h.ledger.nodup_lists.2.2
    rw [hl] at hnodup
    exact (List.nodup_cons.1 hnodup).1
  rw [show l.reversing.tail = rest by rw [hl]; rfl]
  refine ⟨h.ledger.relist rfl ?_ rfl, ?_⟩
  · rw [hl, ← Multiset.cons_coe, ← Multiset.cons_coe, ← Multiset.singleton_add,
      ← Multiset.singleton_add]
    abel
  · refine ⟨hb.update hxb _, htail, hcompleted.update hxc _, ⟨rfl, ?_⟩, hrest.update hxr _,
      pushHead_update hpush hxw _, nofun, fun _ => hc⟩
    show IsList (Function.update s.next x prev) (Function.update s.next x prev x) l.drained
    rw [Function.update_self]
    exact hdrained.update hxd _

omit [DecidableEq K] in
/-- The parent of a task is resumed. -/
theorem Placed.resume (h : Placed s l) (hm : s.main = .process (some x)) :
    Placed { s.setMain .user with
      context := .drainCQ (s.next x)
      resumed := s.resumed ++ [x] } { l with drained := l.drained.tail } := by
  obtain ⟨hb, htail, hcompleted, hdrained, hreversing, hpush, -, -⟩ := h.linked
  rw [hm] at hb htail hdrained hreversing
  obtain ⟨rest, hl, hrest⟩ := isList_some.1 hdrained
  have hsplit : s.held l = s.held { l with drained := rest } + {x} := by
    unfold State.held
    rw [hl, ← Multiset.cons_coe, ← Multiset.singleton_add]
    abel
  rw [show l.drained.tail = rest by rw [hl]; rfl]
  refine ⟨⟨?_, ?_, ?_, nofun⟩, hb, htail, hcompleted, hrest, hreversing, hpush, nofun, nofun⟩
  · show (s.submitted : Multiset K) =
      s.held { l with drained := rest } + ((s.resumed ++ [x] : List K) : Multiset K)
    rw [h.ledger.submitted, hsplit, ← Multiset.coe_add, Multiset.coe_singleton]
    abel
  · have hnodup := h.ledger.nodup
    rw [hsplit] at hnodup
    exact (Multiset.nodup_add.1 hnodup).1
  · refine h.ledger.ran.trans ?_
    rw [hl, ← Multiset.cons_coe, ← Multiset.singleton_add]
    show _ = ∑ i, (s.workers i).ran + l.completed + rest + l.reversing +
      ((s.resumed ++ [x] : List K) : Multiset K)
    rw [← Multiset.coe_add, Multiset.coe_singleton]
    abel

/-! ### The backoff list -/

omit [DecidableEq K] in
/-- There is no room for a task. -/
theorem Placed.giveUp (h : Placed s l) {next : Option K}
    (hm : s.main = .pushToSQ (.submitBackoffSQ x next) .compareExchange) :
    Placed { s.setMain .user with backoffSqHead := some x } l := by
  obtain ⟨hb, htail, hcompleted, hdrained, hreversing, hpush, -, -⟩ := h.linked
  rw [hm] at hb htail hdrained hreversing
  refine ⟨h.ledger.congr rfl nofun, hb, fun _ => htail (.inl ?_), hcompleted, hdrained, hreversing, hpush,
    nofun, nofun⟩
  obtain ⟨rest, hl, -⟩ := isList_some.1 hb
  rw [hl]
  exact List.cons_ne_nil x rest

omit [DecidableEq K] in
/-- `submitBackoffSQ()` begins. -/
theorem Placed.resubmit (h : Placed s l) (hm : s.main = .drained) (hb : s.backoffSqHead = some x) :
    Placed (s.setMain (.submitBackoffSQ (some x))) l := by
  obtain ⟨hbackoff, htail, hcompleted, hdrained, hreversing, hpush, -, hc⟩ := h.linked
  have hc := hc (by rw [hm]; rfl)
  rw [hm] at hbackoff htail hdrained hreversing
  refine ⟨h.ledger.congr rfl nofun, ?_, fun _ => htail (.inr rfl), hcompleted, hdrained, hreversing, hpush,
    nofun, fun _ => hc⟩
  rw [← hb]
  exact hbackoff

omit [DecidableEq K] in
/-- All tasks have been submitted. -/
theorem Placed.submitted (h : Placed s l) (hm : s.main = .submitBackoffSQ none) :
    Placed { s.setMain .user with
      backoffSqHead := none
      backoffSqTailPtr := none } l := by
  obtain ⟨hb, htail, hcompleted, hdrained, hreversing, hpush, -, -⟩ := h.linked
  rw [hm] at hb htail hdrained hreversing
  refine ⟨h.ledger.congr rfl nofun, hb, fun _ => ?_, hcompleted, hdrained, hreversing, hpush,
    nofun, nofun⟩
  rw [isList_none.1 hb]
  rfl

/-! ### Runs -/

/-- The lists after a step of the main thread: whether there was room matters to `pushToSQ()`. -/
def Main.lists (m : Main K) (room : Bool) (l : Lists K) : Lists K :=
  match m, room with
  | .pushToSQ caller .compareExchange, true => { l with backoff := caller.leaves l.backoff }
  | .pushToBackoffSQ x, _ => { l with backoff := l.backoff ++ [x] }
  | .drainCQ, _ => ⟨l.backoff, [], [], l.completed⟩
  | .reverse _ (some x), _ => ⟨l.backoff, l.completed, x :: l.drained, l.reversing.tail⟩
  | .process (some _), _ => { l with drained := l.drained.tail }
  | _, _ => l

theorem Placed.mainStep (h : Placed s l) (hs : MainStep s t) :
    Placed t (s.main.lists (s.sq s.tailIndex).task.isNone l) := by
  cases hs with
  | compareExchange hm hx =>
    rw [hm, Option.isNone_iff_eq_none.2 hx]
    exact h.push hm hx
  | @stash x hm hx =>
    have hfresh : x ∉ s.held l := h.ledger.fresh x (by rw [hm]; rfl)
    have hroom : (s.sq s.tailIndex).task.isNone = false :=
      Option.isNone_eq_false_iff.2 (Option.isSome_iff_ne_none.2 hx)
    rw [hm, hroom]
    refine h.setMain (by rw [State.pointers, State.pointers, hm]; rfl) ?_ nofun nofun
    rintro y ⟨⟩
    exact hfresh
  | giveUp hm hx =>
    have hroom : (s.sq s.tailIndex).task.isNone = false :=
      Option.isNone_eq_false_iff.2 (Option.isSome_iff_ne_none.2 hx)
    rw [hm, hroom]
    exact h.giveUp hm
  | loadDequeuing hm hop =>
    rw [hm]
    refine h.pushed hm nofun ?_
    obtain ⟨-, rfl⟩ | ⟨-, rfl⟩ := hop <;> nofun
  | notifyNone hm hi =>
    rw [hm]
    exact h.pushed hm nofun nofun
  | @notifyOne caller i head hm hw hi =>
    have h' := h.setWorker (i := i) (w := .wait head) (by rw [hw]; rfl) (by rw [hw]; rfl) nofun
    rw [hm]
    exact h'.pushed hm nofun nofun
  | advance hm hm' =>
    rw [hm]
    exact h.advance hm hm'
  | pushToBackoffSQ hm =>
    rw [hm]
    exact h.pushToBackoffSQ hm
  | tick hm hc hd hp =>
    have h' : Placed (s.setMain .drainCQ) l :=
      h.setMain (by rw [State.pointers, State.pointers, hm]; rfl) nofun nofun fun _ => hc
    rw [hm]
    exact h'.congr rfl rfl rfl rfl
  | drainCQ hm hm' =>
    rw [hm]
    exact h.drainCQ hm hm'
  | reversed hm =>
    have hc := h.linked.context (by rw [hm]; rfl)
    rw [hm]
    exact h.setMain (by rw [State.pointers, State.pointers, hm]; rfl) nofun nofun fun _ => hc
  | reverse hm =>
    rw [hm]
    exact h.reverse hm
  | processed hm =>
    have hc := h.linked.context (by rw [hm]; rfl)
    rw [hm]
    refine h.setMain ?_ nofun nofun fun _ => hc
    rw [State.pointers, State.pointers, hm, State.setMain, hc]
    rfl
  | resume hm =>
    rw [hm]
    exact h.resume hm
  | suspend hm hc =>
    obtain ⟨hb, htail, hcompleted, hdrained, hreversing, hpush, -, -⟩ := h.linked
    rw [hm] at hb htail hdrained hreversing
    rw [hc] at hdrained
    rw [hm]
    exact ⟨h.ledger.congr rfl nofun, hb, htail, hcompleted, hdrained, hreversing, hpush, nofun, fun _ => rfl⟩
  | drained hm hb =>
    rw [hm]
    exact h.setMain (by rw [State.pointers, State.pointers, hm]; rfl) nofun nofun nofun
  | resubmit hm hb hd =>
    rw [hm]
    exact h.resubmit hm hb
  | submitBackoffSQ hm =>
    have hc := h.linked.context (by rw [hm]; rfl)
    rw [hm]
    refine h.setMain (by rw [State.pointers, State.pointers, hm]; rfl) nofun ?_ fun _ => hc
    rintro y next ⟨⟩
    rfl
  | submitted hm =>
    rw [hm]
    exact h.submitted hm
  | submit hm hd hx =>
    rw [hm]
    refine h.setMain (by rw [State.pointers, State.pointers, hm]; rfl) ?_ nofun nofun
    rintro y ⟨⟩
    exact h.ledger.notMem_of_isActive hx
  | destroy hm hd hb =>
    rw [hm]
    exact h.setMain (by rw [State.pointers, State.pointers, hm]; rfl) nofun nofun nofun
  | join hm hn hw =>
    rw [hm]
    exact h.setMain (by rw [State.pointers, State.pointers, hm]; rfl) nofun nofun nofun
  | destroyed hm hn ht hq =>
    have h' : Placed (s.setMain .user) l :=
      h.setMain (by rw [State.pointers, State.pointers, hm]; rfl) nofun nofun nofun
    rw [hm]
    exact h'.congr rfl rfl rfl rfl

theorem Placed.step {a : Action c K} (h : Placed s l) (hs : step s a = .ok t) : ∃ l', Placed t l' := by
  obtain ⟨i, hw⟩ | hm := step_cases hs
  · obtain ⟨l', h', -⟩ := h.workerStep hw
    exact ⟨l', h'⟩
  · exact ⟨_, h.mainStep hm⟩

theorem placed_of_reach (h : Reach step anyAction (State.init c K) s) : ∃ l, Placed s l :=
  h.invariant (I := fun s => ∃ l, Placed s l) ⟨_, placed_init c⟩ fun _ _ _ ⟨_, h⟩ _ hs => h.step hs

/-! ### The lists -/

/-- The lists that the pointers stand for. -/
def State.lists (s : State c K) : Lists K where
  backoff := collect s.next s.submitted.length (s.main.backoffPtr s.backoffSqHead)
  completed := collect s.next s.submitted.length s.cqHead
  drained := collect s.next s.submitted.length (s.main.drainPtr s.context)
  reversing := collect s.next s.submitted.length s.main.reversePtr

omit [DecidableEq K] in
theorem Placed.lists_eq (h : Placed s l) : s.lists = l := by
  have hcard := congrArg Multiset.card h.ledger.submitted
  simp only [State.held, Multiset.card_add, Multiset.coe_card] at hcard
  cases l with
  | mk backoff completed drained reversing =>
    simp only at hcard
    have hb := h.linked.backoff.collect_eq (n := s.submitted.length) (by simp only; omega)
    have hc := h.linked.completed.collect_eq (n := s.submitted.length) (by simp only; omega)
    have hd := h.linked.drained.collect_eq (n := s.submitted.length) (by simp only; omega)
    have hr := h.linked.reversing.collect_eq (n := s.submitted.length) (by simp only; omega)
    rw [State.lists, hb, hc, hd, hr]

/-- **Every task is in one place.**  In every run the lists of the pool are well-formed; a task that was
submitted is in the backoff list, in a slot, with a thread, on the completion list, in the list that is
being drained, or its parent has been resumed; it is in one of the first places only, and once; and it has
been run if it has left the threads, or is about to. -/
theorem in_one_place (h : Reach step anyAction (State.init c K) s) :
    Linked s s.lists ∧ ∀ x,
      s.lists.backoff.count x + (∑ j ∈ Finset.range c.sqCapacity, (s.sq j).tasks).count x +
          (∑ i, (s.workers i).tasks).count x + s.lists.completed.count x +
          (s.lists.drained.count x + s.lists.reversing.count x) + s.resumed.count x =
        s.submitted.count x ∧
      s.submitted.count x ≤ s.resumed.count x + 1 ∧
      s.ran.count x = (∑ i, (s.workers i).ran).count x + s.lists.completed.count x +
        (s.lists.drained.count x + s.lists.reversing.count x) + s.resumed.count x := by
  obtain ⟨l, hp⟩ := placed_of_reach h
  rw [hp.lists_eq]
  refine ⟨hp.linked, fun x => ?_⟩
  have hsubmitted := congrArg (Multiset.count x) hp.ledger.submitted
  have hran := congrArg (Multiset.count x) hp.ledger.ran
  have hone := hp.ledger.count_le_one x
  simp only [State.held, Multiset.count_add, Multiset.coe_count] at hsubmitted hran
  refine ⟨?_, ?_, ?_⟩ <;> omega

theorem in_one_place_taskRun : ∃ s, exec step (State.init twoThreads (Fin 2)) taskRun = .ok s ∧
    s.lists.completed = [0] ∧ (s.sq 7).task = some (.task 1) ∧ s.submitted.count 1 ≤ s.resumed.count 1 + 1 := by
  cases h : exec step (State.init twoThreads (Fin 2)) taskRun with
  | error e =>
    have hok : (exec step (State.init twoThreads (Fin 2)) taskRun).toOption.isSome := by decide +kernel
    rw [h] at hok
    cases hok
  | ok s =>
    have hstate : (exec step (State.init twoThreads (Fin 2)) taskRun).map
        (fun s => (s.lists.completed, (s.sq 7).task)) = .ok ([0], some (.task 1)) := by decide +kernel
    rw [h] at hstate
    obtain ⟨hc, hx⟩ := Prod.mk.inj (Except.ok.inj hstate)
    exact ⟨s, rfl, hc, hx, ((in_one_place (reach_of_run h)).2 1).2.1⟩

end Corral.ThreadPool
