import Corral.ThreadPool.Model

/-!
# `ThreadPool`: what a step does

* `WorkerStep`, `workerStep_cases`: the steps of a worker thread, and that there are no others;
* `MainStep`, `mainStep_cases`: those of the main thread;
* `action_cases`, `step_cases`: every step is one of these.
-/

namespace Corral.ThreadPool

variable {c : Config} {K : Type*} [DecidableEq K] {s t : State c K} {i : c.Thread}

/-- What the worker thread does next in one step, and the state after it. -/
inductive WorkerStep (s : State c K) (i : c.Thread) : State c K → Prop
  | fetchAdd (hw : s.workers i = .fetchAdd) : WorkerStep s i
      { s.setWorker i (.exchange s.sqHead) with
        sqHead := c.advance s.sqHead
        arrivals := s.arrivals ++ [c.index s.sqHead] }
  -- The exchanges, with an item in the slot and without one.
  | take {head : ℕ} {ret : Item K} {w : Worker K}
      (hw : s.workers i = .exchange head ∨ ∃ spins cutoff, s.workers i = .spin head spins cutoff)
      (hx : (s.sq (c.index head)).task = some ret)
      (hw' : w = .popped ret ∨ ∃ spins, w = .storeCutoff spins ret) : WorkerStep s i
      { (s.setTask (c.index head) none).setWorker i w with takes := s.takes ++ [c.index head] }
  | miss {head : ℕ} {w : Worker K}
      (hw : s.workers i = .exchange head ∨ ∃ spins cutoff, s.workers i = .spin head spins cutoff)
      (hx : (s.sq (c.index head)).task = none)
      (hw' : w = .loadCutoff head ∨ (∃ spins cutoff, w = .spin head spins cutoff) ∨
        w = .startDequeuing head) : WorkerStep s i (s.setWorker i w)
  | loadCutoff {head cutoff : ℕ} (hw : s.workers i = .loadCutoff head) :
      WorkerStep s i (s.setWorker i (.spin head 0 cutoff))
  | storeCutoff {spins : ℕ} {ret : Item K} (hw : s.workers i = .storeCutoff spins ret) : WorkerStep s i
      { s.setWorker i (.popped ret) with sqSpinCutoff := max 200 (spins * 5 / 4) }
  | startDequeuing {head : ℕ} (hw : s.workers i = .startDequeuing head) :
      WorkerStep s i ((s.setDequeuing (c.index head) true).setWorker i (.wait head))
  | block {head : ℕ} (hw : s.workers i = .wait head) (hx : (s.sq (c.index head)).task = none) :
      WorkerStep s i (s.setWorker i (.blocked head))
  | pass {head : ℕ} (hw : s.workers i = .wait head) (hx : (s.sq (c.index head)).task ≠ none) :
      WorkerStep s i (s.setWorker i (.stopDequeuing head))
  | wake {head : ℕ} (hw : s.workers i = .blocked head) : WorkerStep s i (s.setWorker i (.wait head))
  | stopDequeuing {head : ℕ} (hw : s.workers i = .stopDequeuing head) :
      WorkerStep s i ((s.setDequeuing (c.index head) false).setWorker i (.exchange head))
  | exit (hw : s.workers i = .popped .exitRequest) : WorkerStep s i (s.setWorker i .exited)
  | start {x : K} (hw : s.workers i = .popped (.task x)) : WorkerStep s i (s.setWorker i (.run x))
  | run {x : K} (hw : s.workers i = .run x) : WorkerStep s i
      { s.setWorker i (.loadHead x) with ran := s.ran ++ [x] }
  | loadHead {x : K} (hw : s.workers i = .loadHead x) :
      WorkerStep s i ((s.setNext x s.cqHead).setWorker i (.pushHead x s.cqHead))
  | pushHead {x : K} {head : Option K} {w : Worker K} (hw : s.workers i = .pushHead x head)
      (hx : s.cqHead = head) (hw' : head = none ∧ w = .post ∨ head ≠ none ∧ w = .fetchAdd) :
      WorkerStep s i { s.setWorker i w with cqHead := some x }
  | retry {x : K} {head : Option K} (hw : s.workers i = .pushHead x head) :
      WorkerStep s i (s.setWorker i (.loadHead x))
  | post (hw : s.workers i = .post) : WorkerStep s i
      { s.setWorker i .fetchAdd with posted := s.posted + 1 }

theorem exchange_cases {head : ℕ} {found : Item K → Worker K} {missed : Worker K}
    (hw : s.workers i = .exchange head ∨ ∃ spins cutoff, s.workers i = .spin head spins cutoff)
    (hfound : ∀ ret, found ret = .popped ret ∨ ∃ spins, found ret = .storeCutoff spins ret)
    (hmissed : missed = .loadCutoff head ∨ (∃ spins cutoff, missed = .spin head spins cutoff) ∨
      missed = .startDequeuing head) : WorkerStep s i (s.exchange i head found missed) := by
  cases hx : (s.sq (c.index head)).task with
  | none =>
    rw [exchange_of_none hx]
    exact .miss hw hx hmissed
  | some ret =>
    rw [exchange_of_some hx]
    exact .take hw hx (hfound ret)

theorem workerStep_cases (hs : s.workerStep i = .ok t) : WorkerStep s i t := by
  unfold State.workerStep at hs
  cases hw : s.workers i with
  | fetchAdd =>
    rw [hw] at hs
    cases hs
    exact .fetchAdd hw
  | exchange head =>
    rw [hw] at hs
    cases hs
    exact exchange_cases (.inl hw) (fun _ => .inl rfl) (.inl rfl)
  | loadCutoff head =>
    rw [hw] at hs
    cases hs
    exact .loadCutoff hw
  | spin head spins cutoff =>
    rw [hw] at hs
    cases hs
    refine exchange_cases (.inr ⟨spins, cutoff, hw⟩) (fun ret => ?_) ?_
    · by_cases hc : updateCutoff head = true
      · exact .inr ⟨spins, if_pos hc⟩
      · exact .inl (if_neg hc)
    · by_cases hc : spins + 1 < cutoff
      · exact .inr (.inl ⟨spins + 1, cutoff, if_pos hc⟩)
      · exact .inr (.inr (if_neg hc))
  | storeCutoff spins ret =>
    rw [hw] at hs
    cases hs
    exact .storeCutoff hw
  | startDequeuing head =>
    rw [hw] at hs
    cases hs
    exact .startDequeuing hw
  | wait head =>
    rw [hw] at hs
    cases hs
    by_cases hx : (s.sq (c.index head)).task = none
    · rw [if_pos hx]
      exact .block hw hx
    · rw [if_neg hx]
      exact .pass hw hx
  | blocked head =>
    rw [hw] at hs
    cases hs
  | stopDequeuing head =>
    rw [hw] at hs
    cases hs
    exact .stopDequeuing hw
  | popped ret =>
    cases ret with
    | task x =>
      rw [hw] at hs
      cases hs
      exact .start hw
    | exitRequest =>
      rw [hw] at hs
      cases hs
      exact .exit hw
  | run x =>
    rw [hw] at hs
    cases hs
    exact .run hw
  | loadHead x =>
    rw [hw] at hs
    cases hs
    exact .loadHead hw
  | pushHead x head =>
    rw [hw] at hs
    cases hs
    by_cases hx : s.cqHead = head
    · rw [if_pos hx]
      refine .pushHead hw hx ?_
      by_cases hh : head = none
      · exact .inl ⟨hh, if_pos hh⟩
      · exact .inr ⟨hh, if_neg hh⟩
    · rw [if_neg hx]
      exact .retry hw
  | post =>
    rw [hw] at hs
    cases hs
    exact .post hw
  | exited =>
    rw [hw] at hs
    cases hs

/-- What the main thread does in one step, and the state after it. -/
inductive MainStep (s : State c K) : State c K → Prop
  -- `pushToSQ()`
  | compareExchange {caller : Caller K} (hm : s.main = .pushToSQ caller .compareExchange)
      (hx : (s.sq s.tailIndex).task = none) : MainStep s
      { (s.setTask s.tailIndex (some caller.item)).setMain (.pushToSQ caller .loadDequeuing) with
        pushes := s.pushes ++ [s.tailIndex]
        submitted := s.submitted ++ caller.submits }
  | stash {x : K} (hm : s.main = .pushToSQ (.awaitSuspend x) .compareExchange)
      (hx : (s.sq s.tailIndex).task ≠ none) : MainStep s (s.setMain (.pushToBackoffSQ x))
  | giveUp {x : K} {next : Option K}
      (hm : s.main = .pushToSQ (.submitBackoffSQ x next) .compareExchange)
      (hx : (s.sq s.tailIndex).task ≠ none) : MainStep s
      { s.setMain .user with backoffSqHead := some x }
  | loadDequeuing {caller : Caller K} {op : Push} (hm : s.main = .pushToSQ caller .loadDequeuing)
      (hop : (s.sq s.tailIndex).dequeuing = true ∧ op = .notifyOne ∨
        (s.sq s.tailIndex).dequeuing = false ∧ op = .advance) :
      MainStep s (s.setMain (.pushToSQ caller op))
  | notifyNone {caller : Caller K} (hm : s.main = .pushToSQ caller .notifyOne)
      (hi : ∀ i, s.isBlocked i s.tailIndex = false) :
      MainStep s (s.setMain (.pushToSQ caller .advance))
  | notifyOne {caller : Caller K} {i : c.Thread} {head : ℕ}
      (hm : s.main = .pushToSQ caller .notifyOne) (hw : s.workers i = .blocked head)
      (hi : c.index head = s.tailIndex) :
      MainStep s ((s.setWorker i (.wait head)).setMain (.pushToSQ caller .advance))
  | advance {caller : Caller K} {m : Main K} (hm : s.main = .pushToSQ caller .advance)
      (hm' : (∃ x, caller = .awaitSuspend x ∧ m = .user) ∨
        (∃ x next, caller = .submitBackoffSQ x next ∧ m = .submitBackoffSQ next) ∨
        ∃ n, caller = .destructor n ∧
          (n + 1 < c.threadCount ∧ m = .pushToSQ (.destructor (n + 1)) .compareExchange ∨
            c.threadCount ≤ n + 1 ∧ m = .join 0)) :
      MainStep s { s.setMain m with sqTail := c.advance s.sqTail }
  | pushToBackoffSQ {x : K} (hm : s.main = .pushToBackoffSQ x) : MainStep s
      { ((s.setNext x none).storeTail x).setMain .user with
        backoffSqTailPtr := some x
        submitted := s.submitted ++ [x] }
  -- `tick()`
  | tick {merged : ℕ} (hm : s.main = .user) (hc : s.context = .eventLoop) (hd : s.destroyed = false)
      (hp : 0 < merged ∧ merged ≤ s.posted) : MainStep s
      { s.setMain .drainCQ with posted := s.posted - merged }
  | drainCQ {m : Main K} (hm : s.main = .drainCQ)
      (hm' : s.cqHead = none ∧ m = .drained ∨ s.cqHead ≠ none ∧ m = .reverse none s.cqHead) :
      MainStep s { s.setMain m with cqHead := none }
  | reversed {prev : Option K} (hm : s.main = .reverse prev none) :
      MainStep s (s.setMain (.process prev))
  | reverse {prev : Option K} {curr : K} (hm : s.main = .reverse prev (some curr)) :
      MainStep s ((s.setNext curr prev).setMain (.reverse (some curr) (s.next curr)))
  | processed (hm : s.main = .process none) : MainStep s (s.setMain .drainCQ)
  | resume {x : K} (hm : s.main = .process (some x)) : MainStep s
      { s.setMain .user with
        context := .drainCQ (s.next x)
        resumed := s.resumed ++ [x] }
  | suspend {next : Option K} (hm : s.main = .user) (hc : s.context = .drainCQ next) : MainStep s
      { s.setMain (.process next) with context := .eventLoop }
  | drained (hm : s.main = .drained) (hb : s.backoffSqHead = none) : MainStep s (s.setMain .user)
  | resubmit {x : K} (hm : s.main = .drained) (hb : s.backoffSqHead = some x)
      (hd : s.destroyed = false) : MainStep s (s.setMain (.submitBackoffSQ (some x)))
  | submitBackoffSQ {x : K} (hm : s.main = .submitBackoffSQ (some x)) :
      MainStep s (s.setMain (.pushToSQ (.submitBackoffSQ x (s.next x)) .compareExchange))
  | submitted (hm : s.main = .submitBackoffSQ none) : MainStep s
      { s.setMain .user with
        backoffSqHead := none
        backoffSqTailPtr := none }
  -- The code of the user and the destructor.
  | submit {x : K} (hm : s.main = .user) (hd : s.destroyed = false) (hx : s.isActive x = false) :
      MainStep s (s.setMain (.pushToSQ (.awaitSuspend x) .compareExchange))
  | destroy (hm : s.main = .user) (hd : s.destroyed = false) (hb : s.backoffSqHead = none) :
      MainStep s (s.setMain (.pushToSQ (.destructor 0) .compareExchange))
  | join {n : ℕ} (hm : s.main = .join n) (hn : n < c.threadCount)
      (hw : s.workers ⟨n, hn⟩ = .exited) : MainStep s (s.setMain (.join (n + 1)))
  | destroyed {n : ℕ} (hm : s.main = .join n) (hn : c.threadCount ≤ n) (ht : s.sqHead = s.sqTail)
      (hq : s.cqHead = none) : MainStep s { s.setMain .user with destroyed := true }

theorem storeTail_of_none (h : s.backoffSqTailPtr = none) (x : K) :
    s.storeTail x = { s with backoffSqHead := some x } := by
  unfold State.storeTail
  rw [h]

theorem storeTail_of_some {y : K} (h : s.backoffSqTailPtr = some y) (x : K) :
    s.storeTail x = s.setNext y (some x) := by
  unfold State.storeTail
  rw [h]

/-- `*backoffSqTailPtr = task` stores into a link, or into `backoffSqHead`. -/
theorem storeTail_eq (s : State c K) (x : K) :
    ∃ next head, s.storeTail x = { s with next := next, backoffSqHead := head } := by
  obtain hy | ⟨y, hy⟩ := Option.eq_none_or_eq_some s.backoffSqTailPtr
  · exact ⟨s.next, some x, storeTail_of_none hy x⟩
  · exact ⟨Function.update s.next y (some x), s.backoffSqHead, storeTail_of_some hy x⟩

theorem pushFailed_cases {caller : Caller K} (hm : s.main = .pushToSQ caller .compareExchange)
    (hx : (s.sq s.tailIndex).task ≠ none) (hs : s.pushFailed caller = .ok t) : MainStep s t := by
  cases caller with
  | awaitSuspend x =>
    cases hs
    exact .stash hm hx
  | submitBackoffSQ x next =>
    cases hs
    exact .giveUp hm hx
  | destructor n => cases hs

theorem pushStep_cases {caller : Caller K} {op : Push} (hm : s.main = .pushToSQ caller op)
    (hs : s.pushStep caller op = .ok t) : MainStep s t := by
  unfold State.pushStep at hs
  cases op with
  | compareExchange =>
    by_cases hx : (s.sq s.tailIndex).task = none
    · simp only [if_pos hx] at hs
      cases hs
      exact .compareExchange hm hx
    · simp only [if_neg hx] at hs
      exact pushFailed_cases hm hx hs
  | loadDequeuing =>
    cases hs
    refine .loadDequeuing hm ?_
    cases hd : (s.sq s.tailIndex).dequeuing with
    | true => exact .inl ⟨rfl, rfl⟩
    | false => exact .inr ⟨rfl, rfl⟩
  | notifyOne =>
    by_cases hi : ∃ i, s.isBlocked i s.tailIndex
    · simp only [if_pos hi] at hs
      cases hs
    · simp only [if_neg hi] at hs
      cases hs
      exact .notifyNone hm fun i => by simpa using fun h => hi ⟨i, h⟩
  | advance =>
    cases hs
    cases caller with
    | awaitSuspend x => exact .advance hm (.inl ⟨x, rfl, rfl⟩)
    | submitBackoffSQ x next => exact .advance hm (.inr (.inl ⟨x, next, rfl, rfl⟩))
    | destructor n =>
      unfold State.pushSucceeded
      by_cases hn : n + 1 < c.threadCount
      · simp only [if_pos hn]
        exact .advance hm (.inr (.inr ⟨n, rfl, .inl ⟨hn, rfl⟩⟩))
      · simp only [if_neg hn]
        exact .advance hm (.inr (.inr ⟨n, rfl, .inr ⟨not_lt.1 hn, rfl⟩⟩))

theorem mainStep_cases (hs : s.mainStep = .ok t) : MainStep s t := by
  unfold State.mainStep at hs
  cases hm : s.main with
  | user =>
    rw [hm] at hs
    cases hs
  | pushToSQ caller op =>
    rw [hm] at hs
    exact pushStep_cases hm hs
  | pushToBackoffSQ x =>
    rw [hm] at hs
    cases hs
    exact .pushToBackoffSQ hm
  | drainCQ =>
    rw [hm] at hs
    cases hs
    refine .drainCQ hm ?_
    by_cases hq : s.cqHead = none
    · exact .inl ⟨hq, if_pos hq⟩
    · exact .inr ⟨hq, if_neg hq⟩
  | reverse prev curr =>
    cases curr with
    | none =>
      rw [hm] at hs
      cases hs
      exact .reversed hm
    | some curr =>
      rw [hm] at hs
      cases hs
      exact .reverse hm
  | process t =>
    cases t with
    | none =>
      rw [hm] at hs
      cases hs
      exact .processed hm
    | some x =>
      rw [hm] at hs
      cases hs
      exact .resume hm
  | drained =>
    rw [hm] at hs
    cases hb : s.backoffSqHead with
    | none =>
      simp only [hb] at hs
      cases hs
      exact .drained hm hb
    | some x =>
      simp only [hb] at hs
      cases hd : s.destroyed with
      | true => simp [hd] at hs
      | false =>
        simp only [hd, Bool.false_eq_true, if_false] at hs
        cases hs
        exact .resubmit hm hb hd
  | submitBackoffSQ x =>
    cases x with
    | none =>
      rw [hm] at hs
      cases hs
      exact .submitted hm
    | some x =>
      rw [hm] at hs
      cases hs
      exact .submitBackoffSQ hm
  | join n =>
    rw [hm] at hs
    by_cases hn : n < c.threadCount
    · simp only [dif_pos hn] at hs
      by_cases hw : s.workers ⟨n, hn⟩ = .exited
      · simp only [if_pos hw] at hs
        cases hs
        exact .join hm hn hw
      · simp only [if_neg hw] at hs
        cases hs
    · simp only [dif_neg hn] at hs
      by_cases hq : s.sqHead = s.sqTail ∧ s.cqHead = none
      · simp only [if_pos hq] at hs
        cases hs
        exact .destroyed hm (not_lt.1 hn) hq.1 hq.2
      · simp only [if_neg hq] at hs
        cases hs

/-- The steps, by who takes them and why. -/
theorem action_cases {a : Action c K} (hs : step s a = .ok t) :
    (∃ i, a = .worker i ∧ s.workerStep i = .ok t) ∨
      (∃ i head, a = .wake i ∧ s.workers i = .blocked head ∧ t = s.setWorker i (.wait head)) ∨
      (∃ i x head, a = .weaklyFail i ∧ s.workers i = .pushHead x head ∧ t = s.setWorker i (.loadHead x)) ∨
      MainStep s t := by
  cases a with
  | worker i => exact .inl ⟨i, rfl, hs⟩
  | wake i =>
    simp only [step] at hs
    split at hs
    case h_1 head hw =>
      cases hs
      exact .inr (.inl ⟨i, head, rfl, hw, rfl⟩)
    case h_2 => cases hs
  | weaklyFail i =>
    simp only [step] at hs
    split at hs
    case h_1 x head hw =>
      cases hs
      exact .inr (.inr (.inl ⟨i, x, head, rfl, hw, rfl⟩))
    case h_2 => cases hs
  | main => exact .inr (.inr (.inr (mainStep_cases hs)))
  | notify i =>
    simp only [step] at hs
    split at hs
    case h_1 caller head hm hw =>
      by_cases hi : c.index head = s.tailIndex
      · rw [if_pos hi] at hs
        cases hs
        exact .inr (.inr (.inr (.notifyOne hm hw hi)))
      · rw [if_neg hi] at hs
        cases hs
    case h_2 => cases hs
  | submit x =>
    simp only [step] at hs
    by_cases hm : s.main = .user
    · rw [if_pos hm] at hs
      by_cases hd : s.destroyed = true ∨ s.isActive x = true
      · rw [if_pos hd] at hs
        cases hs
      · rw [if_neg hd] at hs
        cases hs
        obtain ⟨hd, hx⟩ := not_or.1 hd
        exact .inr (.inr (.inr (.submit hm (by simpa using hd) (by simpa using hx))))
    · rw [if_neg hm] at hs
      cases hs
  | suspend =>
    simp only [step] at hs
    split at hs
    case h_1 next hm hc =>
      cases hs
      exact .inr (.inr (.inr (.suspend hm hc)))
    case h_2 => cases hs
  | tick merged =>
    simp only [step] at hs
    by_cases hm : s.main = .user ∧ s.context = .eventLoop ∧ 0 < merged ∧ merged ≤ s.posted
    · rw [if_pos hm] at hs
      by_cases hd : s.destroyed = true
      · rw [if_pos hd] at hs
        cases hs
      · rw [if_neg hd] at hs
        cases hs
        exact .inr (.inr (.inr (.tick hm.1 hm.2.1 (by simpa using hd) hm.2.2)))
    · rw [if_neg hm] at hs
      cases hs
  | destroy =>
    simp only [step] at hs
    by_cases hm : s.main = .user
    · rw [if_pos hm] at hs
      by_cases hd : s.destroyed = true
      · rw [if_pos hd] at hs
        cases hs
      · rw [if_neg hd] at hs
        by_cases hb : s.backoffSqHead = none
        · rw [if_pos hb] at hs
          cases hs
          exact .inr (.inr (.inr (.destroy hm (by simpa using hd) hb)))
        · rw [if_neg hb] at hs
          cases hs
    · rw [if_neg hm] at hs
      cases hs

/-- Every step is one of a worker thread or of the main thread. -/
theorem step_cases {a : Action c K} (hs : step s a = .ok t) :
    (∃ i, WorkerStep s i t) ∨ MainStep s t := by
  obtain ⟨i, -, hw⟩ | ⟨i, head, -, hw, rfl⟩ | ⟨i, x, head, -, hw, rfl⟩ | hm := action_cases hs
  · exact .inl ⟨i, workerStep_cases hw⟩
  · exact .inl ⟨i, .wake hw⟩
  · exact .inl ⟨i, .retry hw⟩
  · exact .inr hm

end Corral.ThreadPool
