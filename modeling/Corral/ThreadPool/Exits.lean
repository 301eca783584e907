import Corral.ThreadPool.Tickets

/-!
# `ThreadPool`: the exit requests

* `State.exits`: how many exit requests the destructor has pushed;
* `Exiting`: they are in the slots or with the threads; they are the last items that were pushed; and
  the pool that is being destroyed has no other use;
* `Exiting.workerStep`, `Exiting.mainStep`, `exiting_of_reach`.
-/

namespace Corral.ThreadPool

open ActionMachine Holdings

variable {c : Config} {K : Type*} {s t : State c K} {i : c.Thread} {j : ℕ} {w : Worker K} {m : Main K}

def Item.exits : Item K → ℕ
  | .task _ => 0
  | .exitRequest => 1

def Slot.exits (a : Slot K) : ℕ := a.task.elim 0 Item.exits

/-- The thread has an exit request, or has followed it. -/
def Worker.exits : Worker K → ℕ
  | .storeCutoff _ ret | .popped ret => ret.exits
  | .exited => 1
  | _ => 0

def Main.exits (c : Config) : Main K → ℕ
  | .pushToSQ (.destructor pushed) .compareExchange => pushed
  | .pushToSQ (.destructor pushed) _ => pushed + 1
  | .join _ => c.threadCount
  | _ => 0

/-- How many exit requests have been pushed. -/
def State.exits (s : State c K) : ℕ := if s.destroyed then c.threadCount else s.main.exits c

/-- The main thread is in the destructor. -/
def Main.destructs : Main K → Bool
  | .pushToSQ (.destructor _) _ | .join _ => true
  | _ => false

/-- The main thread is where the pool must still be there. -/
def Main.needsPool : Main K → Bool
  | .pushToSQ _ _ | .pushToBackoffSQ _ | .submitBackoffSQ _ | .join _ => true
  | _ => false

/-- The destructor has been called. -/
def State.closing (s : State c K) : Bool := s.destroyed || s.main.destructs

structure Exiting (s : State c K) : Prop where
  count : ∑ j ∈ Finset.range c.sqCapacity, (s.sq j).exits + ∑ i, (s.workers i).exits = s.exits
  backoff : s.closing = true → s.backoffSqHead = none
  destroyed : s.destroyed = true → s.main.needsPool = false
  pushed : ∀ n op, s.main = .pushToSQ (.destructor n) op → n < c.threadCount
  joined : ∀ n, s.main = .join n → ∀ i : c.Thread, i.1 < n → s.workers i = .exited
  exited : s.destroyed = true → ∀ i, s.workers i = .exited
  recent : ∀ j ∈ Finset.range c.sqCapacity, (s.sq j).task = some .exitRequest →
    ∃ k, s.pushes[k]? = some j ∧ s.pushes.length ≤ k + s.exits

theorem exiting_init (c : Config) : Exiting (State.init c K) where
  count := by
    have hslots : ∑ j ∈ Finset.range c.sqCapacity, ((State.init c K).sq j).exits = 0 :=
      Finset.sum_eq_zero fun _ _ => rfl
    have hworkers : ∑ i, ((State.init c K).workers i).exits = 0 := Finset.sum_eq_zero fun _ _ => rfl
    rw [hslots, hworkers]
    rfl
  backoff := nofun
  destroyed := nofun
  pushed := nofun
  joined := nofun
  exited := nofun
  recent _ _ := nofun

/-- As long as the destructor has not been called, there is no exit request. -/
theorem Exiting.noExits (h : Exiting s) (hc : s.closing = false) :
    (∀ j ∈ Finset.range c.sqCapacity, (s.sq j).task ≠ some .exitRequest) ∧
      ∀ i, (s.workers i).exits = 0 := by
  have hzero : s.exits = 0 := by
    simp only [State.closing, Bool.or_eq_false_iff] at hc
    rw [State.exits, hc.1, if_neg (by simp)]
    cases hm : s.main with
    | pushToSQ caller op =>
      cases caller with
      | destructor n =>
        rw [hm] at hc
        cases hc.2
      | _ => rfl
    | join n =>
      rw [hm] at hc
      cases hc.2
    | _ => rfl
  have hcount := h.count
  rw [hzero, Nat.add_eq_zero_iff, Finset.sum_eq_zero_iff, Finset.sum_eq_zero_iff] at hcount
  refine ⟨fun j hj heq => ?_, fun i => hcount.2 i (Finset.mem_univ i)⟩
  have hj := hcount.1 j hj
  rw [Slot.exits, heq] at hj
  cases hj

/-! ### The worker threads -/

theorem Exiting.congr (h : Exiting s)
    (hq : (t.sq, t.workers, t.pushes, t.destroyed) = (s.sq, s.workers, s.pushes, s.destroyed))
    (he : t.main.exits c = s.main.exits c) (hb : t.closing = true → t.backoffSqHead = none)
    (hd : t.destroyed = true → t.main.needsPool = false)
    (hp : ∀ n op, t.main = .pushToSQ (.destructor n) op → n < c.threadCount)
    (hj : ∀ n, t.main = .join n → ∀ i : c.Thread, i.1 < n → s.workers i = .exited) : Exiting t := by
  simp only [Prod.mk.injEq] at hq
  obtain ⟨hsq, hworkers, hpushes, hdestroyed⟩ := hq
  have hexits : t.exits = s.exits := by rw [State.exits, State.exits, hdestroyed, he]
  refine ⟨?_, hb, hd, hp, ?_, ?_, ?_⟩
  · rw [hsq, hworkers, hexits]
    exact h.count
  · rw [hworkers]
    exact hj
  · rw [hworkers, hdestroyed]
    exact h.exited
  · rw [hsq, hpushes, hexits]
    exact h.recent

/-- A thread that has not exited goes on. -/
theorem exited_setWorker {i' : c.Thread} (hi : s.workers i ≠ .exited) (h : s.workers i' = .exited)
    (w : Worker K) : (s.setWorker i w).workers i' = .exited := by
  have hne : i' ≠ i := by
    rintro rfl
    exact hi h
  rw [workers_setWorker_of_ne hne]
  exact h

theorem Exiting.setWorker (h : Exiting s) (hw : w.exits = (s.workers i).exits)
    (hi : s.workers i ≠ .exited) : Exiting (s.setWorker i w) where
  count := by
    have hsum := sum_update_eq (g := fun _ => Worker.exits) (w := s.workers) (Finset.mem_univ i) hw
    exact (congrArg (∑ j ∈ Finset.range c.sqCapacity, (s.sq j).exits + ·) hsum).trans h.count
  backoff := h.backoff
  destroyed := h.destroyed
  pushed := h.pushed
  joined n hn i' hi' := exited_setWorker hi (h.joined n hn i' hi') w
  exited hd i' := exited_setWorker hi (h.exited hd i') w
  recent := h.recent

theorem Exiting.setDequeuing (h : Exiting s) (hj : j ∈ Finset.range c.sqCapacity) (b : Bool) :
    Exiting (s.setDequeuing j b) where
  count := by
    have hsum := sum_update_eq (g := fun _ => Slot.exits) (w := s.sq)
      (v := { s.sq j with dequeuing := b }) hj rfl
    exact (congrArg (· + ∑ i, (s.workers i).exits) hsum).trans h.count
  backoff := h.backoff
  destroyed := h.destroyed
  pushed := h.pushed
  joined := h.joined
  exited := h.exited
  recent k hkr hk := by
    refine h.recent k hkr ?_
    by_cases hkj : k = j
    · subst hkj
      rw [show ((s.setDequeuing k b).sq k).task = (s.sq k).task by
        simp [State.setDequeuing]] at hk
      exact hk
    · rw [show (s.setDequeuing j b).sq k = s.sq k from Function.update_of_ne hkj _ _] at hk
      exact hk

/-- A thread takes the item from its slot. -/
theorem Exiting.take (h : Exiting s) {head : ℕ} {ret : Item K}
    (hx : (s.sq (c.index head)).task = some ret) (hi : (s.workers i).exits = 0)
    (hi' : s.workers i ≠ .exited) (hw : w.exits = ret.exits) :
    Exiting { (s.setTask (c.index head) none).setWorker i w with
      takes := s.takes ++ [c.index head] } where
  count := by
    have hslots := sum_update_loss (g := fun _ => Slot.exits) (w := s.sq)
      (v := { s.sq (c.index head) with task := none }) (m := ret.exits) (index_mem c head)
      (by simp [Slot.exits, hx])
    have hworkers := sum_update_gain (g := fun _ => Worker.exits) (w := s.workers) (v := w)
      (m := ret.exits) (Finset.mem_univ i) (by rw [hi, hw, zero_add])
    refine Eq.trans ?_ h.count
    rw [hslots]
    refine (congrArg (_ + ·) hworkers).trans ?_
    simp only [State.setWorker, State.setTask]
    omega
  backoff := h.backoff
  destroyed := h.destroyed
  pushed := h.pushed
  joined n hn i' hi'' := exited_setWorker hi' (h.joined n hn i' hi'') w
  exited hd i' := exited_setWorker hi' (h.exited hd i') w
  recent k hkr hk := by
    refine h.recent k hkr ?_
    by_cases hkj : k = c.index head
    · subst hkj
      simp [State.setTask, State.setWorker] at hk
    · rw [show State.sq _ k = s.sq k from Function.update_of_ne hkj _ _] at hk
      exact hk

/-! ### The main thread -/

theorem exits_of_destructs (h : m.destructs = false) : m.exits c = 0 := by
  cases m with
  | pushToSQ caller op =>
    cases caller with
    | destructor n => cases h
    | _ => rfl
  | join n => cases h
  | _ => rfl

/-- The main thread goes on, outside of the destructor. -/
theorem Exiting.outside (h : Exiting s)
    (hq : (t.sq, t.workers, t.pushes, t.destroyed) = (s.sq, s.workers, s.pushes, s.destroyed))
    (hm : s.main.destructs = false) (hm' : t.main.destructs = false)
    (hb : s.destroyed = true → t.backoffSqHead = s.backoffSqHead)
    (hd : s.destroyed = true → t.main.needsPool = false) : Exiting t := by
  have hdestroyed : t.destroyed = s.destroyed := congrArg (fun q => q.2.2.2) hq
  refine h.congr hq ?_ ?_ ?_ ?_ ?_
  · rw [exits_of_destructs hm, exits_of_destructs hm']
  · intro hc
    rw [State.closing, hm', Bool.or_false, hdestroyed] at hc
    rw [hb hc]
    refine h.backoff ?_
    rw [State.closing, hc, Bool.true_or]
  · rw [hdestroyed]
    exact hd
  · intro n op heq
    rw [heq] at hm'
    cases hm'
  · intro n heq
    rw [heq] at hm'
    cases hm'

theorem Exiting.alive (h : Exiting s) (hm : s.main.needsPool = true) : s.destroyed = false := by
  cases hd : s.destroyed with
  | false => rfl
  | true => rw [h.destroyed hd] at hm; cases hm

/-- The destructor pushes an exit request, or another item is pushed. -/
theorem Exiting.push (h : Exiting s) {caller : Caller K}
    (hm : s.main = .pushToSQ caller .compareExchange) (hx : (s.sq s.tailIndex).task = none)
    (hsq : t.sq = Function.update s.sq s.tailIndex { s.sq s.tailIndex with task := some caller.item })
    (hm' : t.main = .pushToSQ caller .loadDequeuing) (hpushes : t.pushes = s.pushes ++ [s.tailIndex])
    (ht : (t.workers, t.destroyed, t.backoffSqHead) = (s.workers, s.destroyed, s.backoffSqHead)) :
    Exiting t := by
  simp only [Prod.mk.injEq] at ht
  obtain ⟨hworkers, hdestroyed, hbackoff⟩ := ht
  have hd := h.alive (by rw [hm]; rfl)
  have hexits : t.exits = s.exits + caller.item.exits := by
    rw [State.exits, State.exits, hdestroyed, hd, if_neg (by simp), if_neg (by simp), hm, hm']
    cases caller <;> rfl
  refine ⟨?_, ?_, ?_, ?_, ?_, ?_, ?_⟩
  · have hslots := sum_update_gain (i := s.tailIndex) (g := fun _ => Slot.exits) (w := s.sq)
      (v := { s.sq s.tailIndex with task := some caller.item }) (m := caller.item.exits)
      (index_mem c s.sqTail) (by simp [Slot.exits, hx])
    rw [hexits, hsq, hworkers, ← h.count, add_right_comm]
    exact congrArg (· + _) hslots
  · rw [hbackoff, State.closing, hdestroyed, hm']
    intro hc
    refine h.backoff ?_
    rw [State.closing, hm]
    cases caller <;> exact hc
  · rw [hdestroyed, hd]
    exact nofun
  · rw [hm']
    rintro n op ⟨⟩
    exact h.pushed n _ hm
  · rw [hm']
    exact nofun
  · rw [hdestroyed, hd]
    exact nofun
  · intro j hjr hj
    rw [hpushes, List.length_append, List.length_singleton, hexits]
    by_cases hjt : j = s.tailIndex
    · refine ⟨s.pushes.length, ?_, ?_⟩
      · rw [List.getElem?_append_right le_rfl, Nat.sub_self, hjt]
        rfl
      · rw [hjt, hsq, Function.update_self] at hj
        rw [Option.some.inj hj, Item.exits]
        omega
    · rw [hsq, Function.update_of_ne hjt] at hj
      obtain ⟨k, hk, hle⟩ := h.recent j hjr hj
      have hlt : k < s.pushes.length := (List.getElem?_eq_some_iff.1 hk).1
      refine ⟨k, ?_, ?_⟩
      · rw [List.getElem?_append_left hlt]
        exact hk
      · have hexit : caller.item.exits = 1 := by
          cases hc : s.closing with
          | false => exact absurd hj ((h.noExits hc).1 j hjr)
          | true =>
            rw [State.closing, hd, hm] at hc
            cases caller with
            | destructor n => rfl
            | _ => cases hc
        omega

/-! ### Runs -/

variable [DecidableEq K]

theorem Exiting.workerStep (h : Exiting s) (hs : WorkerStep s i t) : Exiting t := by
  cases hs with
  | fetchAdd hw =>
    have h' := h.setWorker (i := i) (w := .exchange s.sqHead) (by rw [hw]; rfl) (by simp [hw])
    exact h'.congr rfl rfl h'.backoff h'.destroyed h'.pushed h'.joined
  | @take head ret w hw hx hw' =>
    refine h.take hx ?_ ?_ ?_
    · obtain hw | ⟨spins, cutoff, hw⟩ := hw <;> rw [hw] <;> rfl
    · obtain hw | ⟨spins, cutoff, hw⟩ := hw <;> simp [hw]
    · obtain rfl | ⟨spins, rfl⟩ := hw' <;> rfl
  | @miss head w hw hx hw' =>
    refine h.setWorker (Eq.trans (b := 0) ?_ ?_) ?_
    · obtain rfl | ⟨spins, cutoff, rfl⟩ | rfl := hw' <;> rfl
    · obtain hw | ⟨spins, cutoff, hw⟩ := hw <;> rw [hw] <;> rfl
    · obtain hw | ⟨spins, cutoff, hw⟩ := hw <;> simp [hw]
  | loadCutoff hw => exact h.setWorker (by rw [hw]; rfl) (by simp [hw])
  | @storeCutoff spins ret hw =>
    have h' := h.setWorker (i := i) (w := .popped ret) (by rw [hw]; rfl) (by simp [hw])
    exact h'.congr rfl rfl h'.backoff h'.destroyed h'.pushed h'.joined
  | @startDequeuing head hw =>
    have h' := h.setDequeuing (index_mem c head) true
    exact h'.setWorker (by rw [State.setDequeuing, hw]; rfl) (by simp [State.setDequeuing, hw])
  | block hw hx => exact h.setWorker (by rw [hw]; rfl) (by simp [hw])
  | pass hw hx => exact h.setWorker (by rw [hw]; rfl) (by simp [hw])
  | wake hw => exact h.setWorker (by rw [hw]; rfl) (by simp [hw])
  | @stopDequeuing head hw =>
    have h' := h.setDequeuing (index_mem c head) false
    exact h'.setWorker (by rw [State.setDequeuing, hw]; rfl) (by simp [State.setDequeuing, hw])
  | exit hw => exact h.setWorker (by rw [hw]; rfl) (by simp [hw])
  | start hw => exact h.setWorker (by rw [hw]; rfl) (by simp [hw])
  | @run x hw =>
    have h' := h.setWorker (i := i) (w := .loadHead x) (by rw [hw]; rfl) (by simp [hw])
    exact h'.congr rfl rfl h'.backoff h'.destroyed h'.pushed h'.joined
  | @loadHead x hw =>
    have h' := h.setWorker (i := i) (w := .pushHead x s.cqHead) (by rw [hw]; rfl) (by simp [hw])
    exact h'.congr rfl rfl h'.backoff h'.destroyed h'.pushed h'.joined
  | @pushHead x head w hw hx hw' =>
    have h' := h.setWorker (i := i) (w := w)
      (by rw [hw]; obtain ⟨-, rfl⟩ | ⟨-, rfl⟩ := hw' <;> rfl) (by simp [hw])
    exact h'.congr rfl rfl h'.backoff h'.destroyed h'.pushed h'.joined
  | retry hw => exact h.setWorker (by rw [hw]; rfl) (by simp [hw])
  | post hw =>
    have h' := h.setWorker (i := i) (w := .fetchAdd) (by rw [hw]; rfl) (by simp [hw])
    exact h'.congr rfl rfl h'.backoff h'.destroyed h'.pushed h'.joined

omit [DecidableEq K] in
/-- `pushToSQ()` goes on after the item has been pushed. -/
theorem Exiting.onward (h : Exiting s) {caller : Caller K} {op op' : Push}
    (hm : s.main = .pushToSQ caller op) (hop : op ≠ .compareExchange) (hop' : op' ≠ .compareExchange) :
    Exiting (s.setMain (.pushToSQ caller op')) := by
  have hd := h.alive (by rw [hm]; rfl)
  refine h.congr rfl ?_ ?_ ?_ ?_ nofun
  · rw [hm]
    cases caller <;> cases op <;> cases op' <;> first | rfl | contradiction
  · intro hc
    refine h.backoff ?_
    rw [State.closing, hm]
    cases caller <;> exact hc
  · exact fun hd' => absurd (hd.symm.trans hd') (by simp)
  · rintro n op'' ⟨⟩
    exact h.pushed n op hm

omit [DecidableEq K] in
/-- The caller of `pushToSQ()` goes on. -/
theorem Exiting.advance (h : Exiting s) {caller : Caller K}
    (hm : s.main = .pushToSQ caller .advance)
    (hm' : (∃ x, caller = .awaitSuspend x ∧ m = .user) ∨
      (∃ x next, caller = .submitBackoffSQ x next ∧ m = .submitBackoffSQ next) ∨
      ∃ n, caller = .destructor n ∧
        (n + 1 < c.threadCount ∧ m = .pushToSQ (.destructor (n + 1)) .compareExchange ∨
          c.threadCount ≤ n + 1 ∧ m = .join 0)) :
    Exiting { s.setMain m with sqTail := c.advance s.sqTail } := by
  have hd := h.alive (by rw [hm]; rfl)
  have hno : s.destroyed = true → m.needsPool = false := by
    intro hd'
    rw [hd] at hd'
    cases hd'
  obtain ⟨x, rfl, rfl⟩ | ⟨x, next, rfl, rfl⟩ | ⟨n, rfl, hn⟩ := hm'
  · exact h.outside rfl (by rw [hm]; rfl) rfl (fun _ => rfl) hno
  · exact h.outside rfl (by rw [hm]; rfl) rfl (fun _ => rfl) hno
  · have hlt := h.pushed n _ hm
    have hb : s.backoffSqHead = none := h.backoff (by rw [State.closing, hm]; exact Bool.or_true _)
    obtain ⟨hn, rfl⟩ | ⟨hn, rfl⟩ := hn
    · refine h.congr rfl (by rw [hm]; rfl) (fun _ => hb) hno ?_ nofun
      rintro n' op ⟨⟩
      exact hn
    · refine h.congr rfl ?_ (fun _ => hb) hno nofun ?_
      · rw [hm]
        exact le_antisymm hn hlt
      · rintro n' ⟨⟩ i hi
        cases hi

theorem Exiting.mainStep (h : Exiting s) (hs : MainStep s t) : Exiting t := by
  have hno : ∀ {m : Main K}, s.main.needsPool = true → s.destroyed = true → m.needsPool = false := by
    intro m hm hd
    rw [h.alive hm] at hd
    cases hd
  cases hs with
  | compareExchange hm hx => exact h.push hm hx rfl rfl rfl rfl
  | stash hm hx =>
    exact h.outside rfl (by rw [hm]; rfl) rfl (fun _ => rfl) (hno (by rw [hm]; rfl))
  | giveUp hm hx =>
    exact h.outside rfl (by rw [hm]; rfl) rfl (fun hd => by rw [h.alive (by rw [hm]; rfl)] at hd; cases hd)
      (hno (by rw [hm]; rfl))
  | loadDequeuing hm hop =>
    refine h.onward hm nofun ?_
    obtain ⟨-, rfl⟩ | ⟨-, rfl⟩ := hop <;> nofun
  | notifyNone hm hi => exact h.onward hm nofun nofun
  | @notifyOne caller i head hm hw hi =>
    have h' := h.setWorker (i := i) (w := .wait head) (by rw [hw]; rfl) (by rw [hw]; nofun)
    exact h'.onward hm nofun nofun
  | advance hm hm' => exact h.advance hm hm'
  | @pushToBackoffSQ x hm =>
    obtain ⟨next, head, heq⟩ := storeTail_eq (s.setNext x none) x
    rw [heq]
    exact h.outside rfl (by rw [hm]; rfl) rfl (fun hd => by rw [h.alive (by rw [hm]; rfl)] at hd; cases hd)
      (hno (by rw [hm]; rfl))
  | tick hm hc hd hp => exact h.outside rfl (by rw [hm]; rfl) rfl (fun _ => rfl) fun _ => rfl
  | drainCQ hm hm' =>
    refine h.outside rfl (by rw [hm]; rfl) ?_ (fun _ => rfl) fun _ => ?_
    · obtain ⟨-, rfl⟩ | ⟨-, rfl⟩ := hm' <;> rfl
    · obtain ⟨-, rfl⟩ | ⟨-, rfl⟩ := hm' <;> rfl
  | reversed hm => exact h.outside rfl (by rw [hm]; rfl) rfl (fun _ => rfl) fun _ => rfl
  | reverse hm => exact h.outside rfl (by rw [hm]; rfl) rfl (fun _ => rfl) fun _ => rfl
  | processed hm => exact h.outside rfl (by rw [hm]; rfl) rfl (fun _ => rfl) fun _ => rfl
  | resume hm => exact h.outside rfl (by rw [hm]; rfl) rfl (fun _ => rfl) fun _ => rfl
  | suspend hm hc => exact h.outside rfl (by rw [hm]; rfl) rfl (fun _ => rfl) fun _ => rfl
  | drained hm hb => exact h.outside rfl (by rw [hm]; rfl) rfl (fun _ => rfl) fun _ => rfl
  | resubmit hm hb hd =>
    exact h.outside rfl (by rw [hm]; rfl) rfl (fun _ => rfl) fun hd' => by rw [hd] at hd'; cases hd'
  | submitBackoffSQ hm =>
    exact h.outside rfl (by rw [hm]; rfl) rfl (fun _ => rfl) (hno (by rw [hm]; rfl))
  | submitted hm =>
    exact h.outside rfl (by rw [hm]; rfl) rfl (fun hd => by rw [h.alive (by rw [hm]; rfl)] at hd; cases hd)
      (hno (by rw [hm]; rfl))
  | submit hm hd hx =>
    exact h.outside rfl (by rw [hm]; rfl) rfl (fun _ => rfl) fun hd' => by rw [hd] at hd'; cases hd'
  | destroy hm hd hb =>
    refine h.congr rfl (by rw [hm]; rfl) (fun _ => hb) (fun hd' => ?_) ?_ nofun
    · exact absurd (hd.symm.trans hd') (by simp)
    · rintro n op ⟨⟩
      exact c.threadCount_pos
  | @join n hm hn hw =>
    have hb : s.backoffSqHead = none := h.backoff (by rw [State.closing, hm]; exact Bool.or_true _)
    refine h.congr rfl (by rw [hm]; rfl) (fun _ => hb) (hno (by rw [hm]; rfl)) nofun ?_
    rintro n' ⟨⟩ i hi
    obtain hlt | heq := Nat.lt_succ_iff_lt_or_eq.1 hi
    · exact h.joined n hm i hlt
    · rw [← hw]
      exact congrArg s.workers (Fin.ext heq)
  | @destroyed n hm hn ht hq =>
    have hb : s.backoffSqHead = none := h.backoff (by rw [State.closing, hm]; exact Bool.or_true _)
    have hd := h.alive (by rw [hm]; rfl)
    have hexits : s.exits = c.threadCount := by
      rw [State.exits, hd, hm]
      rfl
    refine ⟨?_, fun _ => hb, fun _ => rfl, nofun, nofun, fun _ i => ?_, ?_⟩
    · exact h.count.trans hexits
    · exact h.joined n hm i (i.2.trans_le hn)
    · intro j hj hx
      obtain ⟨k, hk, hle⟩ := h.recent j hj hx
      exact ⟨k, hk, hle.trans (congrArg (k + ·) hexits).le⟩

theorem Exiting.step {a : Action c K} (h : Exiting s) (hs : step s a = .ok t) : Exiting t := by
  obtain ⟨i, hw⟩ | hm := step_cases hs
  · exact h.workerStep hw
  · exact h.mainStep hm

theorem exiting_of_reach (h : Reach step anyAction (State.init c K) s) : Exiting s :=
  h.invariant (exiting_init c) fun _ _ _ h _ hs => h.step hs

end Corral.ThreadPool
