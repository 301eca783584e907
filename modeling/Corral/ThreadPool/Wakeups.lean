import Corral.ThreadPool.Places

/-!
# `ThreadPool`: no work is stranded

* `Counted.reader_eq`: an empty slot has at most one reader;
* `Awake`: only one thread at a slot has found it empty; its flag is set while that thread waits; and if
  there is an item in spite of it, the main thread is about to notify the thread;
* `Pending`: who is going to look at the completion list, and at the backoff list;
* `no_work_is_stranded`.
-/

namespace Corral.ThreadPool

open ActionMachine

variable {c : Config} {K : Type*} {s t : State c K} {i : c.Thread} {j n : ℕ} {w : Worker K} {m : Main K}

/-! ### Readers -/

/-- An empty slot has at most one reader. -/
theorem Counted.reader_eq (h : Counted s) {i' : c.Thread} {n' : ℕ} (hx : (s.sq j).task = none)
    (hi : (s.workers i).head? = some n) (hn : c.index n = j) (hi' : (s.workers i').head? = some n')
    (hn' : c.index n' = j) : i = i' := by
  have hreaders := congrArg (Multiset.count j) h.readers
  have hitems := congrArg (Multiset.count j) h.items
  have hle := h.count_arrivals_le j
  have hslots : ∑ k ∈ Finset.range c.sqCapacity, ((s.sq k).holds k).count j = 0 := by
    refine Finset.sum_eq_zero fun k _ => ?_
    rw [Slot.holds]
    by_cases hk : j = k
    · rw [← hk, hx]
      rfl
    · split
      · rw [Multiset.count_singleton, if_neg hk]
      · exact Multiset.count_zero j
  rw [Multiset.count_add, Multiset.count_sum', Multiset.coe_count, Multiset.coe_count] at hreaders hitems
  by_contra hne
  have hpair := Finset.sum_le_sum_of_subset (f := fun k => ((s.workers k).reads c).count j)
    (Finset.subset_univ {i, i'})
  rw [Finset.sum_pair hne, reads_of_head hi, reads_of_head hi', hn, hn',
    Multiset.count_singleton_self] at hpair
  omega

/-- The ticket of a thread that has found its slot empty. -/
def Worker.missed? : Worker K → Option ℕ
  | .loadCutoff head | .spin head _ _ | .startDequeuing head | .wait head | .blocked head
  | .stopDequeuing head => some head
  | _ => none

/-- The ticket of a thread that has set `dequeuing`. -/
def Worker.waiting? : Worker K → Option ℕ
  | .wait head | .blocked head | .stopDequeuing head => some head
  | _ => none

/-- The main thread has pushed an item, and is about to notify a thread if `dequeuing` is set. -/
def Main.mayNotify : Main K → Bool
  | .pushToSQ _ .loadDequeuing | .pushToSQ _ .notifyOne => true
  | _ => false

structure Awake (s : State c K) : Prop where
  missed : ∀ i i' n n', (s.workers i).missed? = some n → (s.workers i').missed? = some n' →
    c.index n = c.index n' → i = i'
  dequeuing : ∀ i n, (s.workers i).waiting? = some n → (s.sq (c.index n)).dequeuing = true
  notified : ∀ i n, s.workers i = .blocked n → (s.sq (c.index n)).task ≠ none →
    c.index n = s.tailIndex ∧ s.main.mayNotify = true

theorem awake_init (c : Config) : Awake (State.init c K) := ⟨nofun, nofun, nofun⟩

theorem head?_of_missed? (h : w.missed? = some n) : w.head? = some n := by
  cases w <;> first | exact h | cases h

theorem missed?_of_waiting? (h : w.waiting? = some n) : w.missed? = some n := by
  cases w <;> first | exact h | cases h

/-- A thread goes on. -/
theorem Awake.setWorker (h : Awake s)
    (hm : ∀ n, w.missed? = some n → ∀ i' n', (s.workers i').missed? = some n' →
      c.index n' = c.index n → i' = i)
    (hd : ∀ n, w.waiting? = some n → (s.sq (c.index n)).dequeuing = true)
    (hb : ∀ n, w = .blocked n → (s.sq (c.index n)).task = none) : Awake (s.setWorker i w) where
  missed i₁ i₂ n₁ n₂ h₁ h₂ heq := by
    by_cases hi₁ : i₁ = i <;> by_cases hi₂ : i₂ = i
    · rw [hi₁, hi₂]
    · rw [hi₁, workers_setWorker_self] at h₁
      rw [workers_setWorker_of_ne hi₂] at h₂
      exact absurd (hm n₁ h₁ i₂ n₂ h₂ heq.symm) hi₂
    · rw [hi₂, workers_setWorker_self] at h₂
      rw [workers_setWorker_of_ne hi₁] at h₁
      exact absurd (hm n₂ h₂ i₁ n₁ h₁ heq) hi₁
    · rw [workers_setWorker_of_ne hi₁] at h₁
      rw [workers_setWorker_of_ne hi₂] at h₂
      exact h.missed i₁ i₂ n₁ n₂ h₁ h₂ heq
  dequeuing i' n hn := by
    by_cases hi : i' = i
    · rw [hi, workers_setWorker_self] at hn
      exact hd n hn
    · rw [workers_setWorker_of_ne hi] at hn
      exact h.dequeuing i' n hn
  notified i' n hn hx := by
    by_cases hi : i' = i
    · rw [hi, workers_setWorker_self] at hn
      exact absurd (hb n hn) hx
    · rw [workers_setWorker_of_ne hi] at hn
      exact h.notified i' n hn hx

/-- A thread goes on to where it does not wait. -/
theorem Awake.leave (h : Awake s) (hm : w.missed? = none) : Awake (s.setWorker i w) := by
  refine h.setWorker ?_ ?_ ?_
  · intro n hn
    rw [hm] at hn
    cases hn
  · intro n hn
    rw [missed?_of_waiting? hn] at hm
    cases hm
  · rintro n rfl
    cases hm

/-- A thread that has found its slot empty goes on. -/
theorem Awake.stay (h : Awake s) (hi : (s.workers i).missed? = some n) (hm : w.missed? = some n)
    (hd : ∀ n', w.waiting? = some n' → (s.workers i).waiting? = some n')
    (hb : ∀ n, w = .blocked n → (s.sq (c.index n)).task = none) : Awake (s.setWorker i w) := by
  refine h.setWorker ?_ ?_ hb
  · intro n' hn i' n'' hi' heq
    rw [hm] at hn
    cases hn
    exact h.missed i' i n'' n hi' hi heq
  · exact fun n' hn => h.dequeuing i n' (hd n' hn)

theorem Awake.congr (h : Awake s)
    (hq : (t.sq, t.sqTail, t.workers, t.main) = (s.sq, s.sqTail, s.workers, s.main)) : Awake t := by
  simp only [Prod.mk.injEq] at hq
  obtain ⟨hsq, htail, hworkers, hmain⟩ := hq
  have htail : t.tailIndex = s.tailIndex := congrArg c.index htail
  refine ⟨?_, ?_, ?_⟩
  · rw [hworkers]
    exact h.missed
  · rw [hworkers, hsq]
    exact h.dequeuing
  · rw [hworkers, hsq, htail, hmain]
    exact h.notified

theorem sq_setDequeuing (s : State c K) (j : ℕ) (b : Bool) (k : ℕ) :
    ((s.setDequeuing j b).sq k).task = (s.sq k).task ∧
      ((s.setDequeuing j b).sq k).dequeuing = if k = j then b else (s.sq k).dequeuing := by
  by_cases hk : k = j
  · subst hk
    simp [State.setDequeuing]
  · simp [State.setDequeuing, hk]

theorem sq_setTask (s : State c K) (j : ℕ) (x : Option (Item K)) (k : ℕ) :
    ((s.setTask j x).sq k).task = (if k = j then x else (s.sq k).task) ∧
      ((s.setTask j x).sq k).dequeuing = (s.sq k).dequeuing := by
  by_cases hk : k = j
  · subst hk
    simp [State.setTask]
  · simp [State.setTask, hk]

/-- The flag of a slot is set, or cleared while no thread waits there. -/
theorem Awake.setDequeuing (h : Awake s) {b : Bool}
    (hb : b = false → ∀ i n, (s.workers i).waiting? = some n → c.index n ≠ j) :
    Awake (s.setDequeuing j b) where
  missed := h.missed
  dequeuing i n hn := by
    rw [(sq_setDequeuing s j b (c.index n)).2]
    by_cases hj : c.index n = j
    · rw [if_pos hj]
      cases b with
      | true => rfl
      | false => exact absurd hj (hb rfl i n hn)
    · rw [if_neg hj]
      exact h.dequeuing i n hn
  notified i n hn hx := by
    rw [(sq_setDequeuing s j b (c.index n)).1] at hx
    exact h.notified i n hn hx

/-- An item is taken. -/
theorem Awake.clear (h : Awake s) (j : ℕ) : Awake (s.setTask j none) where
  missed := h.missed
  dequeuing i n hn := by
    rw [(sq_setTask s j none (c.index n)).2]
    exact h.dequeuing i n hn
  notified i n hn hx := by
    rw [(sq_setTask s j none (c.index n)).1] at hx
    by_cases hj : c.index n = j
    · rw [if_pos hj] at hx
      exact absurd rfl hx
    · rw [if_neg hj] at hx
      exact h.notified i n hn hx

variable [DecidableEq K]

theorem Awake.workerStep (hc : Counted s) (h : Awake s) (hs : WorkerStep s i t) : Awake t := by
  cases hs with
  | fetchAdd hw => exact (h.leave (i := i) (w := .exchange s.sqHead) rfl).congr rfl
  | @take head ret w hw hx hw' =>
    have h' := (h.clear (c.index head)).leave (i := i) (w := w)
      (by obtain rfl | ⟨spins, rfl⟩ := hw' <;> rfl)
    exact h'.congr rfl
  | @miss head w hw hx hw' =>
    have hi : (s.workers i).head? = some head := by
      obtain hw | ⟨spins, cutoff, hw⟩ := hw <;> rw [hw] <;> rfl
    refine h.setWorker ?_ ?_ ?_
    · intro n hn i' n' hi' heq
      have hn : n = head := by
        obtain rfl | ⟨spins, cutoff, rfl⟩ | rfl := hw' <;> exact (Option.some.inj hn).symm
      subst hn
      exact hc.reader_eq hx (head?_of_missed? hi') heq hi rfl
    · intro n hn
      obtain rfl | ⟨spins, cutoff, rfl⟩ | rfl := hw' <;> cases hn
    · rintro n rfl
      obtain hw' | ⟨spins, cutoff, hw'⟩ | hw' := hw' <;> cases hw'
  | @loadCutoff head cutoff hw =>
    exact h.stay (n := head) (by rw [hw]; rfl) rfl nofun nofun
  | @storeCutoff spins ret hw => exact (h.leave (i := i) (w := .popped ret) rfl).congr rfl
  | @startDequeuing head hw =>
    have h' := h.setDequeuing (j := c.index head) (b := true) nofun
    refine h'.setWorker ?_ ?_ nofun
    · rintro n ⟨⟩ i' n' hi' heq
      exact h.missed i' i n' head hi' (by rw [hw]; rfl) heq
    · rintro n ⟨⟩
      rw [(sq_setDequeuing s _ true _).2, if_pos rfl]
  | @block head hw hx =>
    refine h.stay (n := head) (by rw [hw]; rfl) rfl ?_ ?_
    · rintro n ⟨⟩
      rw [hw]
      rfl
    · rintro n ⟨⟩
      exact hx
  | @pass head hw hx =>
    refine h.stay (n := head) (by rw [hw]; rfl) rfl ?_ nofun
    rintro n ⟨⟩
    rw [hw]
    rfl
  | @wake head hw =>
    refine h.stay (n := head) (by rw [hw]; rfl) rfl ?_ nofun
    rintro n ⟨⟩
    rw [hw]
    rfl
  | @stopDequeuing head hw =>
    have h' := h.leave (i := i) (w := .exchange head) rfl
    refine h'.setDequeuing fun _ i' n hn heq => ?_
    -- No other thread waits at the slot.
    have hne : i' ≠ i := by
      rintro rfl
      rw [workers_setWorker_self] at hn
      cases hn
    rw [workers_setWorker_of_ne hne] at hn
    exact hne (h.missed i' i n head (missed?_of_waiting? hn) (by rw [hw]; rfl) heq)
  | exit hw => exact h.leave rfl
  | start hw => exact h.leave rfl
  | @run x hw => exact (h.leave (i := i) (w := .loadHead x) rfl).congr rfl
  | @loadHead x hw => exact (h.leave (i := i) (w := .pushHead x s.cqHead) rfl).congr rfl
  | @pushHead x head w hw hx hw' =>
    have h' := h.leave (i := i) (w := w) (by obtain ⟨-, rfl⟩ | ⟨-, rfl⟩ := hw' <;> rfl)
    exact h'.congr rfl
  | retry hw => exact h.leave rfl
  | post hw => exact (h.leave (i := i) (w := .fetchAdd) rfl).congr rfl

omit [DecidableEq K] in
/-- The threads that are blocked have nothing to do, wherever the main thread goes. -/
theorem Awake.settled (h : Awake s) (hq : (t.sq, t.workers) = (s.sq, s.workers))
    (hno : ∀ i n, s.workers i = .blocked n → (s.sq (c.index n)).task = none) : Awake t := by
  simp only [Prod.mk.injEq] at hq
  obtain ⟨hsq, hworkers⟩ := hq
  refine ⟨?_, ?_, ?_⟩
  · rw [hworkers]
    exact h.missed
  · rw [hworkers, hsq]
    exact h.dequeuing
  · rw [hworkers, hsq]
    exact fun i n hn hx => absurd (hno i n hn) hx

omit [DecidableEq K] in
/-- There is nothing to notify a thread of. -/
theorem Awake.idle (h : Awake s) (hm : s.main.mayNotify = false) (i : c.Thread) (n : ℕ)
    (hn : s.workers i = .blocked n) : (s.sq (c.index n)).task = none := by
  by_contra hx
  rw [(h.notified i n hn hx).2] at hm
  cases hm

omit [DecidableEq K] in
/-- An item is pushed. -/
theorem Awake.push (h : Awake s) {x : Option (Item K)} (hm : s.main.mayNotify = false)
    (hm' : m.mayNotify = true) : Awake ((s.setTask s.tailIndex x).setMain m) where
  missed := h.missed
  dequeuing i n hn := by
    refine Eq.trans ?_ (h.dequeuing i n hn)
    exact (sq_setTask s s.tailIndex x (c.index n)).2
  notified i n hn hx := by
    by_cases hj : c.index n = s.tailIndex
    · exact ⟨hj, hm'⟩
    · have heq := (sq_setTask s s.tailIndex x (c.index n)).1
      rw [if_neg hj] at heq
      exact absurd (heq.trans (h.idle hm i n hn)) hx

theorem Awake.mainStep (h : Awake s) (hs : MainStep s t) : Awake t := by
  cases hs with
  | @compareExchange caller hm hx =>
    have h' := h.push (x := some caller.item) (m := .pushToSQ caller .loadDequeuing) (by rw [hm]; rfl) rfl
    exact h'.congr rfl
  | stash hm hx => exact h.settled rfl (h.idle (by rw [hm]; rfl))
  | giveUp hm hx => exact h.settled rfl (h.idle (by rw [hm]; rfl))
  | loadDequeuing hm hop =>
    obtain ⟨hd, rfl⟩ | ⟨hd, rfl⟩ := hop
    · exact ⟨h.missed, h.dequeuing, fun i n hn hx => ⟨(h.notified i n hn hx).1, rfl⟩⟩
    · -- If a thread waited at the slot, the flag would be set.
      refine h.settled rfl fun i n hn => ?_
      by_contra hx
      have hset := h.dequeuing i n (by rw [hn]; rfl)
      rw [(h.notified i n hn hx).1, hd] at hset
      cases hset
  | notifyNone hm hi =>
    refine h.settled rfl fun i n hn => ?_
    by_contra hx
    have hblocked := hi i
    simp only [State.isBlocked, hn, beq_eq_false_iff_ne] at hblocked
    exact hblocked (h.notified i n hn hx).1
  | @notifyOne caller i head hm hw hi =>
    have h' : Awake (s.setWorker i (.wait head)) := by
      refine h.stay (n := head) (by rw [hw]; rfl) rfl ?_ nofun
      rintro n ⟨⟩
      rw [hw]
      rfl
    refine h'.settled rfl fun i' n hn => ?_
    -- The thread that is notified is the only one that is blocked at the slot.
    by_contra hx
    have hne : i' ≠ i := by
      rintro rfl
      rw [workers_setWorker_self] at hn
      cases hn
    have hn' := hn
    rw [workers_setWorker_of_ne hne] at hn'
    have heq := (h.notified i' n hn' hx).1
    exact hne (h.missed i' i n head (by rw [hn']; rfl) (by rw [hw]; rfl) (heq.trans hi.symm))
  | advance hm hm' => exact h.settled rfl (h.idle (by rw [hm]; rfl))
  | @pushToBackoffSQ x hm =>
    obtain ⟨next, head, heq⟩ := storeTail_eq (s.setNext x none) x
    rw [heq]
    exact h.settled rfl (h.idle (by rw [hm]; rfl))
  | tick hm hc hd hp => exact h.settled rfl (h.idle (by rw [hm]; rfl))
  | drainCQ hm hm' => exact h.settled rfl (h.idle (by rw [hm]; rfl))
  | reversed hm => exact h.settled rfl (h.idle (by rw [hm]; rfl))
  | reverse hm => exact h.settled rfl (h.idle (by rw [hm]; rfl))
  | processed hm => exact h.settled rfl (h.idle (by rw [hm]; rfl))
  | resume hm => exact h.settled rfl (h.idle (by rw [hm]; rfl))
  | suspend hm hc => exact h.settled rfl (h.idle (by rw [hm]; rfl))
  | drained hm hb => exact h.settled rfl (h.idle (by rw [hm]; rfl))
  | resubmit hm hb hd => exact h.settled rfl (h.idle (by rw [hm]; rfl))
  | submitBackoffSQ hm => exact h.settled rfl (h.idle (by rw [hm]; rfl))
  | submitted hm => exact h.settled rfl (h.idle (by rw [hm]; rfl))
  | submit hm hd hx => exact h.settled rfl (h.idle (by rw [hm]; rfl))
  | destroy hm hd hb => exact h.settled rfl (h.idle (by rw [hm]; rfl))
  | join hm hn hw => exact h.settled rfl (h.idle (by rw [hm]; rfl))
  | destroyed hm hn ht hq => exact h.settled rfl (h.idle (by rw [hm]; rfl))

theorem awake_of_reach (h : Reach step anyAction (State.init c K) s) : Awake s := by
  refine h.invariant_of (J := Counted) (fun _ hr => counted_of_reach hr) (awake_init c) ?_
  intro s a t hc h _ hs
  obtain ⟨i, hw⟩ | hm := step_cases hs
  · exact h.workerStep hc hw
  · exact h.mainStep hm

/-! ### Lists -/

def Main.drains : Main K → Bool
  | .drainCQ | .reverse _ _ | .process _ => true
  | _ => false

def Context.drains : Context K → Bool
  | .eventLoop => false
  | .drainCQ _ => true

/-- A tick is going to look at the completion list again. -/
def State.draining (s : State c K) : Bool := s.main.drains || s.context.drains

def Main.ticks : Main K → Bool
  | .drainCQ | .reverse _ _ | .process _ | .drained | .submitBackoffSQ _
  | .pushToSQ (.submitBackoffSQ _ _) _ => true
  | _ => false

/-- A tick is in progress. -/
def State.ticking (s : State c K) : Bool := s.main.ticks || s.context.drains

/-- Some task is in a slot, with a thread, or on the completion list. -/
def State.Working (s : State c K) : Prop :=
  (∃ j ∈ Finset.range c.sqCapacity, (s.sq j).tasks ≠ 0) ∨ (∃ i, (s.workers i).tasks ≠ 0) ∨ s.cqHead ≠ none

/-- There are tasks that wait for room, or one is about to. -/
def State.Waiting (s : State c K) : Prop :=
  s.main.backoffPtr s.backoffSqHead ≠ none ∨ ∃ x, s.main = .pushToBackoffSQ x

structure Pending (s : State c K) : Prop where
  posted : s.cqHead ≠ none → s.draining = true ∨ 0 < s.posted ∨ ∃ i, s.workers i = .post
  backoff : s.Waiting → s.ticking = true ∨ s.Working

omit [DecidableEq K] in
theorem pending_init (c : Config) : Pending (State.init c K) where
  posted h := absurd rfl h
  backoff := by
    rintro (h | ⟨x, h⟩)
    · exact absurd rfl h
    · cases h

omit [DecidableEq K] in
/-- A thread that has no task goes on. -/
theorem State.Working.setWorker (h : s.Working) (hi : (s.workers i).tasks = w.tasks) :
    (s.setWorker i w).Working := by
  obtain hj | ⟨i', hi'⟩ | hq := h
  · exact .inl hj
  · refine .inr (.inl ⟨i', ?_⟩)
    by_cases hne : i' = i
    · rw [hne, workers_setWorker_self, ← hi, ← hne]
      exact hi'
    · rw [workers_setWorker_of_ne hne]
      exact hi'
  · exact .inr (.inr hq)

omit [DecidableEq K] in
theorem State.Working.congr (h : s.Working) (hq : (t.sq, t.workers, t.cqHead) = (s.sq, s.workers, s.cqHead)) :
    t.Working := by
  simp only [Prod.mk.injEq] at hq
  obtain ⟨hsq, hworkers, hcq⟩ := hq
  unfold State.Working
  rw [hsq, hworkers, hcq]
  exact h

omit [DecidableEq K] in
/-- A task goes from its slot to the thread. -/
theorem State.Working.take (h : s.Working) {head : ℕ} {ret : Item K}
    (hx : (s.sq (c.index head)).task = some ret) (hi : (s.workers i).tasks = 0)
    (hw : w.tasks = ret.tasks) : ((s.setTask (c.index head) none).setWorker i w).Working := by
  obtain ⟨j, hj, hne⟩ | ⟨i', hi'⟩ | hq := h
  · by_cases hjh : j = c.index head
    · refine .inr (.inl ⟨i, ?_⟩)
      rw [workers_setWorker_self, hw]
      rw [hjh, Slot.tasks, hx] at hne
      exact hne
    · refine .inl ⟨j, hj, ?_⟩
      rw [show State.sq _ j = s.sq j from Function.update_of_ne hjh _ _]
      exact hne
  · refine .inr (.inl ⟨i', ?_⟩)
    have hne : i' ≠ i := by
      rintro rfl
      exact hi' hi
    rw [workers_setWorker_of_ne hne]
    exact hi'
  · exact .inr (.inr hq)

omit [DecidableEq K] in
theorem State.Working.setDequeuing (h : s.Working) (j : ℕ) (b : Bool) : (s.setDequeuing j b).Working := by
  obtain ⟨k, hk, hne⟩ | hw := h
  · refine .inl ⟨k, hk, ?_⟩
    rw [Slot.tasks, (sq_setDequeuing s j b k).1]
    exact hne
  · exact .inr hw

theorem State.Working.workerStep (h : s.Working) (hs : WorkerStep s i t) : t.Working := by
  cases hs with
  | fetchAdd hw => exact (h.setWorker (i := i) (w := .exchange s.sqHead) (by rw [hw]; rfl)).congr rfl
  | @take head ret w hw hx hw' =>
    refine (h.take hx (i := i) (w := w) ?_ ?_).congr rfl
    · obtain hw | ⟨spins, cutoff, hw⟩ := hw <;> rw [hw] <;> rfl
    · obtain rfl | ⟨spins, rfl⟩ := hw' <;> rfl
  | @miss head w hw hx hw' =>
    refine h.setWorker (Eq.trans (b := 0) ?_ ?_)
    · obtain hw | ⟨spins, cutoff, hw⟩ := hw <;> rw [hw] <;> rfl
    · obtain rfl | ⟨spins, cutoff, rfl⟩ | rfl := hw' <;> rfl
  | loadCutoff hw => exact h.setWorker (by rw [hw]; rfl)
  | @storeCutoff spins ret hw => exact (h.setWorker (i := i) (w := .popped ret) (by rw [hw]; rfl)).congr rfl
  | startDequeuing hw =>
    exact (h.setDequeuing _ true).setWorker (by rw [State.setDequeuing, hw]; rfl)
  | block hw hx => exact h.setWorker (by rw [hw]; rfl)
  | pass hw hx => exact h.setWorker (by rw [hw]; rfl)
  | wake hw => exact h.setWorker (by rw [hw]; rfl)
  | stopDequeuing hw =>
    exact (h.setDequeuing _ false).setWorker (by rw [State.setDequeuing, hw]; rfl)
  | exit hw => exact h.setWorker (by rw [hw]; rfl)
  | start hw => exact h.setWorker (by rw [hw]; rfl)
  | @run x hw => exact (h.setWorker (i := i) (w := .loadHead x) (by rw [hw]; rfl)).congr rfl
  | @loadHead x hw =>
    exact (h.setWorker (i := i) (w := .pushHead x s.cqHead) (by rw [hw]; rfl)).congr rfl
  | @pushHead x head w hw hx hw' => exact .inr (.inr (Option.some_ne_none x))
  | retry hw => exact h.setWorker (by rw [hw]; rfl)
  | post hw => exact (h.setWorker (i := i) (w := .fetchAdd) (by rw [hw]; rfl)).congr rfl

theorem WorkerStep.frame (hs : WorkerStep s i t) :
    (t.main, t.context, t.backoffSqHead) = (s.main, s.context, s.backoffSqHead) := by
  cases hs <;> rfl

omit [DecidableEq K] in
theorem post_setWorker (hi : s.workers i ≠ .post) (h : ∃ i, s.workers i = .post) (w : Worker K) :
    ∃ i', (s.setWorker i w).workers i' = .post := by
  obtain ⟨i', hi'⟩ := h
  refine ⟨i', ?_⟩
  have hne : i' ≠ i := by
    rintro rfl
    exact hi hi'
  rw [workers_setWorker_of_ne hne]
  exact hi'

/-- A completed task is followed by a tick: whoever pushes onto an empty list posts one. -/
theorem WorkerStep.posted (hs : WorkerStep s i t)
    (h : s.cqHead ≠ none → s.draining = true ∨ 0 < s.posted ∨ ∃ i, s.workers i = .post)
    (hq : t.cqHead ≠ none) : s.draining = true ∨ 0 < t.posted ∨ ∃ i, t.workers i = .post := by
  have hold : ∀ w, s.cqHead ≠ none → s.workers i ≠ .post →
      s.draining = true ∨ 0 < s.posted ∨ ∃ i', (s.setWorker i w).workers i' = .post := by
    intro w hq hi
    obtain hd | hp | hw := h hq
    · exact .inl hd
    · exact .inr (.inl hp)
    · exact .inr (.inr (post_setWorker hi hw w))
  cases hs with
  | @pushHead x head w hw hx hw' =>
    obtain ⟨rfl, rfl⟩ | ⟨hne, rfl⟩ := hw'
    · exact .inr (.inr ⟨i, workers_setWorker_self s i _⟩)
    · exact hold _ (hx ▸ hne) (by rw [hw]; nofun)
  | post hw => exact .inr (.inl (Nat.succ_pos _))
  | take hw hx hw' =>
    exact hold _ hq (by obtain hw | ⟨spins, cutoff, hw⟩ := hw <;> rw [hw] <;> nofun)
  | miss hw hx hw' =>
    exact hold _ hq (by obtain hw | ⟨spins, cutoff, hw⟩ := hw <;> rw [hw] <;> nofun)
  | fetchAdd hw | loadCutoff hw | storeCutoff hw | startDequeuing hw | block hw hx | pass hw hx | wake hw
  | stopDequeuing hw | exit hw | start hw | run hw | loadHead hw | retry hw =>
    exact hold _ hq (by rw [hw]; nofun)

theorem Pending.workerStep (h : Pending s) (hs : WorkerStep s i t) : Pending t := by
  have hframe := hs.frame
  simp only [Prod.mk.injEq] at hframe
  obtain ⟨hmain, hcontext, hbackoff⟩ := hframe
  have hd : t.draining = s.draining := by rw [State.draining, State.draining, hmain, hcontext]
  have ht : t.ticking = s.ticking := by rw [State.ticking, State.ticking, hmain, hcontext]
  refine ⟨fun hq => ?_, fun hw => ?_⟩
  · rw [hd]
    exact hs.posted h.posted hq
  · rw [State.Waiting, hmain, hbackoff] at hw
    rw [ht]
    exact (h.backoff hw).imp_right fun hw => hw.workerStep hs

omit [DecidableEq K] in
/-- A step that changes neither the completion list nor what is known of it. -/
theorem Pending.posted_onward (h : Pending s)
    (hq : (t.workers, t.cqHead, t.posted, t.context) = (s.workers, s.cqHead, s.posted, s.context))
    (hd : s.main.drains = false) (hne : t.cqHead ≠ none) :
    t.draining = true ∨ 0 < t.posted ∨ ∃ i, t.workers i = .post := by
  simp only [Prod.mk.injEq] at hq
  obtain ⟨hworkers, hcq, hposted, hcontext⟩ := hq
  rw [hcq] at hne
  rw [hposted, hworkers]
  refine (h.posted hne).imp_left fun hdrain => ?_
  rw [State.draining, hd, Bool.false_or] at hdrain
  rw [State.draining, hcontext, hdrain, Bool.or_true]

omit [DecidableEq K] in
/-- The main thread goes on, and neither list changes. -/
theorem Pending.onward (h : Pending s)
    (hq : (t.sq, t.workers, t.cqHead, t.posted, t.context) =
      (s.sq, s.workers, s.cqHead, s.posted, s.context))
    (hd : s.main.drains = false) (ht : s.main.ticks = true → t.main.ticks = true)
    (hw : t.Waiting → s.Waiting) : Pending t := by
  simp only [Prod.mk.injEq] at hq
  obtain ⟨hsq, hworkers, hcq, hposted, hcontext⟩ := hq
  refine ⟨h.posted_onward (by rw [hworkers, hcq, hposted, hcontext]) hd, fun hwait => ?_⟩
  refine (h.backoff (hw hwait)).imp (fun htick => ?_) fun hwork => ?_
  · rw [State.ticking, Bool.or_eq_true] at htick ⊢
    rw [hcontext]
    exact htick.imp_left ht
  · exact hwork.congr (by rw [hsq, hworkers, hcq])

omit [DecidableEq K] in
/-- A tick begins or goes on. -/
theorem Pending.ticking (h : Pending s) (ht : t.ticking = true)
    (hd : t.draining = true ∨ t.cqHead = none ∨ s.main.drains = false ∧
      (t.workers, t.cqHead, t.posted, t.context) = (s.workers, s.cqHead, s.posted, s.context)) :
    Pending t := by
  refine ⟨fun hne => ?_, fun _ => .inl ht⟩
  obtain hd | hq | ⟨hd, hq⟩ := hd
  · exact .inl hd
  · exact absurd hq hne
  · exact h.posted_onward hq hd hne

omit [DecidableEq K] in
/-- The slot for `sqTail` holds a task, unless the destructor has been called. -/
theorem Exiting.working (h : Exiting s) (hm : s.main.needsPool = true) (hm' : s.main.destructs = false)
    (hx : (s.sq s.tailIndex).task ≠ none) : s.Working := by
  have hclosing : s.closing = false := by rw [State.closing, h.alive hm, hm']; rfl
  obtain ⟨a, ha⟩ := Option.ne_none_iff_exists'.1 hx
  refine .inl ⟨s.tailIndex, index_mem c s.sqTail, ?_⟩
  rw [Slot.tasks, ha]
  cases a with
  | task x => exact Multiset.singleton_ne_zero x
  | exitRequest => exact absurd ha ((h.noExits hclosing).1 _ (index_mem c s.sqTail))

omit [DecidableEq K] in
/-- A pool in the destructor has no task that waits for room. -/
theorem Exiting.no_backoff (h : Exiting s) (hm : s.main.destructs = true) : s.backoffSqHead = none :=
  h.backoff (by rw [State.closing, hm, Bool.or_true])

theorem Pending.mainStep (he : Exiting s) (h : Pending s) (hs : MainStep s t) : Pending t := by
  cases hs with
  | @compareExchange caller hm hx =>
    refine ⟨h.posted_onward rfl (by rw [hm]; rfl), fun hwait => ?_⟩
    cases caller with
    | awaitSuspend x =>
      refine .inr (.inl ⟨s.tailIndex, index_mem c s.sqTail, ?_⟩)
      rw [Slot.tasks, show State.sq _ s.tailIndex = _ from Function.update_self _ _ _]
      exact Multiset.singleton_ne_zero x
    | submitBackoffSQ x next => exact .inl rfl
    | destructor n =>
      obtain hb | ⟨x, ⟨⟩⟩ := hwait
      exact absurd (he.no_backoff (by rw [hm]; rfl)) hb
  | @stash x hm hx =>
    have hwork := he.working (by rw [hm]; rfl) (by rw [hm]; rfl) hx
    exact ⟨h.posted_onward rfl (by rw [hm]; rfl), fun _ => .inr (hwork.congr rfl)⟩
  | @giveUp x next hm hx =>
    have hwork := he.working (by rw [hm]; rfl) (by rw [hm]; rfl) hx
    exact ⟨h.posted_onward rfl (by rw [hm]; rfl), fun _ => .inr (hwork.congr rfl)⟩
  | @loadDequeuing caller op hm hop =>
    refine h.onward rfl (by rw [hm]; rfl) ?_ ?_
    · rw [hm]
      cases caller <;> exact id
    · rintro (hb | ⟨x, ⟨⟩⟩)
      left
      rw [hm]
      obtain ⟨-, rfl⟩ | ⟨-, rfl⟩ := hop <;> cases caller <;> exact hb
  | @notifyNone caller hm hi =>
    refine h.onward rfl (by rw [hm]; rfl) ?_ ?_
    · rw [hm]
      cases caller <;> exact id
    · rintro (hb | ⟨x, ⟨⟩⟩)
      left
      rw [hm]
      cases caller <;> exact hb
  | @notifyOne caller i head hm hw hi =>
    have h' := h.workerStep (WorkerStep.wake hw)
    refine h'.onward rfl (by rw [State.setWorker, hm]; rfl) ?_ ?_
    · rw [State.setWorker, hm]
      cases caller <;> exact id
    · rintro (hb | ⟨x, ⟨⟩⟩)
      left
      rw [State.setWorker, hm]
      cases caller <;> exact hb
  | @advance caller m hm hm' =>
    refine h.onward rfl (by rw [hm]; rfl) ?_ ?_
    · rw [hm]
      obtain ⟨x, rfl, rfl⟩ | ⟨x, next, rfl, rfl⟩ | ⟨n, rfl, ⟨-, rfl⟩ | ⟨-, rfl⟩⟩ := hm'
      · simp [Main.ticks]
      · exact fun _ => rfl
      · simp [Main.ticks]
      · simp [Main.ticks]
    · intro hwait
      left
      rw [hm]
      obtain ⟨x, rfl, rfl⟩ | ⟨x, next, rfl, rfl⟩ | ⟨n, rfl, ⟨-, rfl⟩ | ⟨-, rfl⟩⟩ := hm' <;>
      · obtain hb | ⟨x, ⟨⟩⟩ := hwait
        exact hb
  | @pushToBackoffSQ x hm =>
    obtain ⟨next, head, heq⟩ := storeTail_eq (s.setNext x none) x
    rw [heq]
    exact h.onward rfl (by rw [hm]; rfl) (by simp [hm, Main.ticks]) fun _ => .inr ⟨x, hm⟩
  | tick hm hc hd hp => exact h.ticking rfl (.inl rfl)
  | drainCQ hm hm' =>
    refine h.ticking ?_ (.inr (.inl rfl))
    obtain ⟨-, rfl⟩ | ⟨-, rfl⟩ := hm' <;> rfl
  | reversed hm => exact h.ticking rfl (.inl rfl)
  | reverse hm => exact h.ticking rfl (.inl rfl)
  | processed hm => exact h.ticking rfl (.inl rfl)
  | resume hm => exact h.ticking rfl (.inl rfl)
  | suspend hm hc => exact h.ticking rfl (.inl rfl)
  | drained hm hb =>
    refine ⟨h.posted_onward rfl (by rw [hm]; rfl), ?_⟩
    rintro (hne | ⟨x, ⟨⟩⟩)
    exact absurd hb hne
  | resubmit hm hb hd => exact h.ticking rfl (.inr (.inr ⟨by rw [hm]; rfl, rfl⟩))
  | submitBackoffSQ hm => exact h.ticking rfl (.inr (.inr ⟨by rw [hm]; rfl, rfl⟩))
  | submitted hm =>
    refine ⟨h.posted_onward rfl (by rw [hm]; rfl), ?_⟩
    rintro (hne | ⟨x, ⟨⟩⟩)
    exact absurd rfl hne
  | submit hm hd hx =>
    refine h.onward rfl (by rw [hm]; rfl) (by simp [hm, Main.ticks]) ?_
    rintro (hb | ⟨y, ⟨⟩⟩)
    left
    rw [hm]
    exact hb
  | destroy hm hd hb =>
    refine h.onward rfl (by rw [hm]; rfl) (by simp [hm, Main.ticks]) ?_
    rintro (hne | ⟨y, ⟨⟩⟩)
    exact absurd hb hne
  | join hm hn hw =>
    refine h.onward rfl (by rw [hm]; rfl) (by simp [hm, Main.ticks]) ?_
    rintro (hne | ⟨y, ⟨⟩⟩)
    exact absurd (he.no_backoff (by rw [hm]; rfl)) hne
  | destroyed hm hn ht hq =>
    refine h.onward rfl (by rw [hm]; rfl) (by simp [hm, Main.ticks]) ?_
    rintro (hne | ⟨y, ⟨⟩⟩)
    exact absurd (he.no_backoff (by rw [hm]; rfl)) hne

theorem pending_of_reach (h : Reach step anyAction (State.init c K) s) : Pending s := by
  refine h.invariant_of (J := Exiting) (fun _ hr => exiting_of_reach hr) (pending_init c) ?_
  intro s a t he h _ hs
  obtain ⟨i, hw⟩ | hm := step_cases hs
  · exact h.workerStep hw
  · exact h.mainStep he hm

omit [DecidableEq K] in
theorem backoffPtr_of_not_ticks (h : m.ticks = false) (p : Option K) : m.backoffPtr p = p := by
  cases m with
  | pushToSQ caller op =>
    cases caller with
    | submitBackoffSQ x next => cases h
    | _ => rfl
  | submitBackoffSQ x => cases h
  | _ => rfl

/-- **No work is stranded.**  If a thread is blocked at a slot with an item, the main thread is in
`pushToSQ()`, about to notify that thread.  If tasks are completed, a tick is going to look at them, has been
posted, or is about to be.  If tasks wait for room, a tick is in progress, or one is going to follow,
as a task is in a slot, with a thread, or completed. -/
theorem no_work_is_stranded (h : Reach step anyAction (State.init c K) s) :
    (∀ i n, s.workers i = .blocked n → (s.sq (c.index n)).task ≠ none →
      (s.sq (c.index n)).dequeuing = true ∧ s.tailIndex = c.index n ∧ s.main.mayNotify = true) ∧
    (s.cqHead ≠ none → s.draining = true ∨ 0 < s.posted ∨ ∃ i, s.workers i = .post) ∧
    (s.backoffSqHead ≠ none → s.ticking = true ∨ s.Working) := by
  have hawake := awake_of_reach h
  have hpending := pending_of_reach h
  refine ⟨fun i n hn hx => ?_, hpending.posted, fun hb => ?_⟩
  · obtain ⟨htail, hmain⟩ := hawake.notified i n hn hx
    exact ⟨hawake.dequeuing i n (by rw [hn]; rfl), htail.symm, hmain⟩
  · cases ht : s.main.ticks with
    | true =>
      left
      rw [State.ticking, ht, Bool.true_or]
    | false =>
      refine hpending.backoff (.inl ?_)
      rw [backoffPtr_of_not_ticks ht]
      exact hb

/-- The second thread is blocked when a task is pushed into its slot. -/
def blockedRun : List (Action twoThreads ℕ) :=
  .worker 0 :: List.replicate 205 (.worker 1) ++ [.submit 0, .main, .main, .main, .submit 1, .main]

theorem no_work_is_stranded_blockedRun : ∃ s, exec step (State.init twoThreads ℕ) blockedRun = .ok s ∧
    s.workers 1 = .blocked 7 ∧ (s.sq 7).task = some (.task 1) ∧ s.main.mayNotify = true := by
  cases h : exec step (State.init twoThreads ℕ) blockedRun with
  | error e =>
    have hok : (exec step (State.init twoThreads ℕ) blockedRun).toOption.isSome := by decide +kernel
    rw [h] at hok
    cases hok
  | ok s =>
    have hstate : (exec step (State.init twoThreads ℕ) blockedRun).map
        (fun s => (s.workers 1, (s.sq 7).task)) = .ok (.blocked 7, some (.task 1)) := by decide +kernel
    rw [h] at hstate
    obtain ⟨hw, hx⟩ := Prod.mk.inj (Except.ok.inj hstate)
    have hne : (s.sq (twoThreads.index 7)).task ≠ none := by
      rw [show twoThreads.index 7 = 7 from rfl, hx]
      exact Option.some_ne_none _
    exact ⟨s, rfl, hw, hx, ((no_work_is_stranded (reach_of_run h)).1 1 7 hw hne).2.2⟩

end Corral.ThreadPool
