import Corral.Lib.Holdings
import Corral.Lib.StrideRing
import Corral.ThreadPool.Steps

/-!
# `ThreadPool`: tickets and slots

* `ticket`, `slot`: the values that `sqHead` and `sqTail` run through, and the slots they stand for;
* `Counted`: what has arrived at the slots, been pushed into them and taken from them;
* `Counted.workerStep`, `Counted.mainStep`, `Counted.step`: the step lemmas;
* `tickets`: readers and items meet in the same slots, and no slot gets ahead by more than one reader.
-/

namespace Corral.ThreadPool

open ActionMachine StrideRing Holdings

variable {c : Config} {K : Type*} {s t : State c K} {i : c.Thread} {j : ℕ} {w : Worker K}

/-! ### Tickets -/

theorem le_bitCeil (n : ℕ) : n ≤ bitCeil n := by
  unfold bitCeil
  by_cases hn : n ≤ 1
  · rw [if_pos hn]
    exact hn
  · rw [if_neg hn]
    have := Nat.lt_log2_self (n := n - 1)
    omega

theorem bitCeil_eq_two_pow (n : ℕ) : ∃ k, bitCeil n = 2 ^ k := by
  unfold bitCeil
  by_cases hn : n ≤ 1
  · exact ⟨0, if_pos hn⟩
  · exact ⟨_, if_neg hn⟩

/-- It is the smallest power of two that is not less than the number. -/
theorem bitCeil_le {n k : ℕ} (h : n ≤ 2 ^ k) : bitCeil n ≤ 2 ^ k := by
  unfold bitCeil
  by_cases hn : n ≤ 1
  · rw [if_pos hn]
    exact Nat.one_le_two_pow
  · rw [if_neg hn]
    refine Nat.pow_le_pow_right (by decide) ?_
    exact (Nat.log2_lt (by omega)).2 (by omega)

theorem sqCapacity_eq_two_pow (c : Config) : ∃ k, c.sqCapacity = 2 ^ k := by
  obtain ⟨k, hk⟩ := bitCeil_eq_two_pow c.threadCount
  refine ⟨k + 9, ?_⟩
  rw [Config.sqCapacity, hk, pow_add]
  norm_num

theorem sqCapacity_dvd (c : Config) : c.sqCapacity ∣ 2 ^ c.sizeBits := by
  obtain ⟨k, hk⟩ := sqCapacity_eq_two_pow c
  have hlt : 2 ^ k < 2 ^ c.unsignedBits := hk ▸ c.capacity_lt
  rw [hk]
  exact pow_dvd_pow 2 (((Nat.pow_lt_pow_iff_right (by decide)).1 hlt).le.trans c.unsignedBits_le)

theorem stride_coprime (c : Config) : stride.Coprime c.sqCapacity := by
  obtain ⟨k, hk⟩ := sqCapacity_eq_two_pow c
  rw [hk]
  exact Nat.Coprime.pow_right k (by decide)

theorem threadCount_le (c : Config) : c.threadCount ≤ c.sqCapacity :=
  (le_bitCeil _).trans (Nat.le_mul_of_pos_right _ (by decide))

theorem index_advance (c : Config) (n : ℕ) : c.index (c.advance n) = (n + stride) % c.sqCapacity :=
  Nat.mod_mod_of_dvd _ (sqCapacity_dvd c)

/-- The wrap-around of `size_t` is one of the slots. -/
theorem index_iterate (c : Config) (h n : ℕ) :
    c.index (c.advance^[n] h) = (h + stride * n) % c.sqCapacity := by
  induction n with
  | zero => rfl
  | succ n ih =>
    rw [Function.iterate_succ_apply', index_advance, Nat.add_mod]
    change (c.index (c.advance^[n] h) + _) % _ = _
    rw [ih, ← Nat.add_mod, Nat.mul_succ, Nat.add_assoc]

/-- The value of `sqHead` or `sqTail` when it has been advanced `n` times. -/
def Config.ticket (c : Config) (n : ℕ) : ℕ := c.advance^[n] 0

/-- The slot of a ticket. -/
def Config.slot (c : Config) (n : ℕ) : ℕ := c.index (c.ticket n)

theorem ticket_succ (c : Config) (n : ℕ) : c.ticket (n + 1) = c.advance (c.ticket n) :=
  Function.iterate_succ_apply' _ _ _

theorem spread_slots (c : Config) (h : ℕ) : Spread (fun n => c.index (c.advance^[n] h)) c.sqCapacity := by
  have heq : (fun n => c.index (c.advance^[n] h)) = fun n => (h + stride * n) % c.sqCapacity :=
    funext fun n => index_iterate c h n
  rw [heq]
  exact spread_stride (stride_coprime c) h

/-! ### Counting -/

/-- The ticket with which a thread is in `popFromSQ()`. -/
def Worker.head? : Worker K → Option ℕ
  | .exchange head | .loadCutoff head | .spin head _ _ | .startDequeuing head | .wait head
  | .blocked head | .stopDequeuing head => some head
  | _ => none

/-- The slot at which a thread is a reader. -/
def Worker.reads (c : Config) (w : Worker K) : Multiset ℕ := w.head?.elim 0 fun head => {c.index head}

/-- The slot, if an item is in it. -/
def Slot.holds (j : ℕ) (x : Slot K) : Multiset ℕ := if x.task.isSome then {j} else 0

/-- An item has been pushed, for which `sqTail` has not yet been advanced. -/
def Main.pushed : Main K → ℕ
  | .pushToSQ _ .compareExchange => 0
  | .pushToSQ _ _ => 1
  | _ => 0

/-- The readers and the items go from slot to slot in the order of the tickets; and what has not been
taken is still there. -/
structure Counted (s : State c K) : Prop where
  sqHead : s.sqHead = c.ticket s.arrivals.length
  sqTail : ∃ n, s.sqTail = c.ticket n ∧ s.pushes.length = n + s.main.pushed
  arrivals : s.arrivals = (List.range s.arrivals.length).map c.slot
  pushes : s.pushes = (List.range s.pushes.length).map c.slot
  readers : (s.arrivals : Multiset ℕ) = s.takes + ∑ i, (s.workers i).reads c
  items : (s.pushes : Multiset ℕ) = s.takes + ∑ j ∈ Finset.range c.sqCapacity, (s.sq j).holds j

/-- What the counting is about, beside the main thread. -/
def State.queue (s : State c K) :=
  (s.sq, s.sqHead, s.sqTail, s.workers, s.arrivals, s.pushes, s.takes)

theorem Counted.congr (h : Counted s) (hq : t.queue = s.queue) (hm : t.main.pushed = s.main.pushed) :
    Counted t := by
  simp only [State.queue, Prod.mk.injEq] at hq
  obtain ⟨hsq, hhead, htail, hworkers, harrivals, hpushes, htakes⟩ := hq
  obtain ⟨h₁, h₂, h₃, h₄, h₅, h₆⟩ := h
  rw [← hhead, ← harrivals] at h₁
  rw [← htail, ← hpushes, ← hm] at h₂
  rw [← harrivals] at h₃
  rw [← hpushes] at h₄
  rw [← harrivals, ← htakes, ← hworkers] at h₅
  rw [← hpushes, ← htakes, ← hsq] at h₆
  exact ⟨h₁, h₂, h₃, h₄, h₅, h₆⟩

theorem counted_init (c : Config) : Counted (State.init c K) where
  sqHead := rfl
  sqTail := ⟨0, rfl, rfl⟩
  arrivals := rfl
  pushes := rfl
  readers := by
    have hsum : ∑ i, ((State.init c K).workers i).reads c = 0 := Finset.sum_eq_zero fun _ _ => rfl
    rw [hsum]
    rfl
  items := by
    have hsum : ∑ j ∈ Finset.range c.sqCapacity, ((State.init c K).sq j).holds j = 0 :=
      Finset.sum_eq_zero fun _ _ => rfl
    rw [hsum]
    rfl

theorem reads_of_head {n : ℕ} (h : w.head? = some n) : w.reads c = {c.index n} := by
  rw [Worker.reads, h]
  rfl

theorem reads_of_none (h : w.head? = none) : w.reads c = 0 := by
  rw [Worker.reads, h]
  rfl

/-- One more ticket. -/
theorem map_slot_concat {l : List ℕ} (h : l = (List.range l.length).map c.slot) :
    l ++ [c.slot l.length] = (List.range (l ++ [c.slot l.length]).length).map c.slot := by
  rw [List.length_append, List.length_singleton, List.range_succ, List.map_append, ← h]
  rfl

/-- A thread goes on, and is a reader as before. -/
theorem Counted.setWorker (h : Counted s) (hw : w.head? = (s.workers i).head?) :
    Counted (s.setWorker i w) where
  sqHead := h.sqHead
  sqTail := h.sqTail
  arrivals := h.arrivals
  pushes := h.pushes
  items := h.items
  readers := by
    have hreads : w.reads c = (s.workers i).reads c := by rw [Worker.reads, Worker.reads, hw]
    have hsum := sum_update_eq (g := fun _ => Worker.reads c) (w := s.workers) (Finset.mem_univ i) hreads
    exact h.readers.trans (congrArg _ hsum.symm)

theorem Counted.setDequeuing (h : Counted s) (hj : j ∈ Finset.range c.sqCapacity) (b : Bool) :
    Counted (s.setDequeuing j b) where
  sqHead := h.sqHead
  sqTail := h.sqTail
  arrivals := h.arrivals
  pushes := h.pushes
  readers := h.readers
  items := by
    have hsum := sum_update_eq (g := Slot.holds) (w := s.sq) (v := { s.sq j with dequeuing := b }) hj rfl
    exact h.items.trans (congrArg _ hsum.symm)

/-- A thread takes the item from its slot. -/
theorem Counted.take (h : Counted s) {head : ℕ} (hi : (s.workers i).head? = some head)
    (hx : (s.sq (c.index head)).task.isSome) (hw : w.head? = none) :
    Counted { (s.setTask (c.index head) none).setWorker i w with
      takes := s.takes ++ [c.index head] } := by
  have hreaders := sum_update_loss (g := fun _ => Worker.reads c) (w := s.workers) (v := w)
    (m := {c.index head}) (Finset.mem_univ i) (by rw [reads_of_head hi, reads_of_none hw, zero_add])
  have hitems := sum_update_loss (g := Slot.holds) (w := s.sq)
    (v := { s.sq (c.index head) with task := none }) (m := {c.index head}) (index_mem c head)
    (by simp [Slot.holds, hx])
  refine ⟨h.sqHead, h.sqTail, h.arrivals, h.pushes, ?_, ?_⟩
  · exact (h.readers.trans (congrArg _ hreaders)).trans (coe_concat_add _ _ _).symm
  · exact (h.items.trans (congrArg _ hitems)).trans (coe_concat_add _ _ _).symm

/-- A thread draws a ticket. -/
theorem Counted.fetchAdd (h : Counted s) (hi : (s.workers i).head? = none) :
    Counted { s.setWorker i (.exchange s.sqHead) with
      sqHead := c.advance s.sqHead
      arrivals := s.arrivals ++ [c.index s.sqHead] } := by
  have hslot : c.index s.sqHead = c.slot s.arrivals.length := congrArg c.index h.sqHead
  have hreaders := sum_update_gain (g := fun _ => Worker.reads c) (w := s.workers)
    (v := .exchange s.sqHead) (m := {c.index s.sqHead}) (Finset.mem_univ i)
    (by rw [reads_of_none hi, zero_add]; rfl)
  refine ⟨?_, h.sqTail, ?_, h.pushes, ?_, h.items⟩
  · show c.advance s.sqHead = c.ticket (s.arrivals ++ [_]).length
    rw [List.length_append, List.length_singleton, ticket_succ, ← h.sqHead]
  · show s.arrivals ++ [c.index s.sqHead] = _
    rw [hslot]
    exact map_slot_concat h.arrivals
  · show ((s.arrivals ++ [c.index s.sqHead] : List ℕ) : Multiset ℕ) = s.takes + _
    rw [← Multiset.coe_add, Multiset.coe_singleton, h.readers, add_assoc]
    exact congrArg _ hreaders.symm

/-- The main thread goes on, and `sqTail` is as much behind as before. -/
theorem Counted.setMain (h : Counted s) {m : Main K} (hm : m.pushed = s.main.pushed) :
    Counted (s.setMain m) := h.congr rfl hm

/-- An item is pushed into the slot for `sqTail`. -/
theorem Counted.push (h : Counted s) {m : Main K} {x : Item K} (hx : (s.sq s.tailIndex).task = none)
    (hm : s.main.pushed = 0) (hm' : m.pushed = 1) :
    Counted { (s.setTask s.tailIndex (some x)).setMain m with
      pushes := s.pushes ++ [s.tailIndex] } := by
  obtain ⟨n, hn, hlen⟩ := h.sqTail
  rw [hm, Nat.add_zero] at hlen
  have hslot : s.tailIndex = c.slot s.pushes.length := by
    rw [hlen]
    exact congrArg c.index hn
  have hitems := sum_update_gain (g := Slot.holds) (w := s.sq)
    (v := { s.sq s.tailIndex with task := some x }) (m := {s.tailIndex}) (index_mem c s.sqTail)
    (by simp [Slot.holds, State.tailIndex, show (s.sq (c.index s.sqTail)).task = none from hx])
  refine ⟨h.sqHead, ⟨n, hn, ?_⟩, h.arrivals, ?_, h.readers, ?_⟩
  · show (s.pushes ++ [s.tailIndex]).length = n + m.pushed
    rw [List.length_append, List.length_singleton, hlen, hm']
  · show s.pushes ++ [s.tailIndex] = _
    rw [hslot]
    exact map_slot_concat h.pushes
  · show ((s.pushes ++ [s.tailIndex] : List ℕ) : Multiset ℕ) = s.takes + _
    rw [← Multiset.coe_add, Multiset.coe_singleton, h.items, add_assoc]
    exact congrArg _ hitems.symm

/-- `sqTail` follows. -/
theorem Counted.advance (h : Counted s) {m : Main K} (hm : s.main.pushed = 1) (hm' : m.pushed = 0) :
    Counted { s.setMain m with sqTail := c.advance s.sqTail } where
  sqHead := h.sqHead
  sqTail := by
    obtain ⟨n, hn, hlen⟩ := h.sqTail
    refine ⟨n + 1, ?_, ?_⟩
    · show c.advance s.sqTail = _
      rw [hn, ticket_succ]
    · show s.pushes.length = n + 1 + m.pushed
      rw [hlen, hm, hm']
  arrivals := h.arrivals
  pushes := h.pushes
  readers := h.readers
  items := h.items

variable [DecidableEq K]

theorem Counted.workerStep (h : Counted s) (hs : WorkerStep s i t) : Counted t := by
  cases hs with
  | fetchAdd hw => exact h.fetchAdd (by rw [hw]; rfl)
  | @take head ret w hw hx hw' =>
    refine h.take ?_ (Option.isSome_of_eq_some hx) ?_
    · obtain hw | ⟨spins, cutoff, hw⟩ := hw <;> rw [hw] <;> rfl
    · obtain rfl | ⟨spins, rfl⟩ := hw' <;> rfl
  | @miss head w hw hx hw' =>
    refine h.setWorker (Eq.trans (b := some head) ?_ ?_)
    · obtain rfl | ⟨spins, cutoff, rfl⟩ | rfl := hw' <;> rfl
    · obtain hw | ⟨spins, cutoff, hw⟩ := hw <;> rw [hw] <;> rfl
  | loadCutoff hw => exact h.setWorker (by rw [hw]; rfl)
  | @storeCutoff spins ret hw =>
    exact (h.setWorker (i := i) (w := .popped ret) (by rw [hw]; rfl)).congr rfl rfl
  | startDequeuing hw =>
    exact (h.setDequeuing (index_mem c _) true).setWorker (by rw [State.setDequeuing, hw]; rfl)
  | block hw hx => exact h.setWorker (by rw [hw]; rfl)
  | pass hw hx => exact h.setWorker (by rw [hw]; rfl)
  | wake hw => exact h.setWorker (by rw [hw]; rfl)
  | stopDequeuing hw =>
    exact (h.setDequeuing (index_mem c _) false).setWorker (by rw [State.setDequeuing, hw]; rfl)
  | exit hw => exact h.setWorker (by rw [hw]; rfl)
  | start hw => exact h.setWorker (by rw [hw]; rfl)
  | @run x hw => exact (h.setWorker (i := i) (w := .loadHead x) (by rw [hw]; rfl)).congr rfl rfl
  | @loadHead x hw =>
    exact (h.setWorker (i := i) (w := .pushHead x s.cqHead) (by rw [hw]; rfl)).congr rfl rfl
  | @pushHead x head w hw hx hw' =>
    refine (h.setWorker (i := i) (w := w) ?_).congr rfl rfl
    rw [hw]
    obtain ⟨-, rfl⟩ | ⟨-, rfl⟩ := hw' <;> rfl
  | retry hw => exact h.setWorker (by rw [hw]; rfl)
  | post hw => exact (h.setWorker (i := i) (w := .fetchAdd) (by rw [hw]; rfl)).congr rfl rfl

theorem Counted.mainStep (h : Counted s) (hs : MainStep s t) : Counted t := by
  cases hs with
  | @compareExchange caller hm hx =>
    exact (h.push (m := .pushToSQ caller .loadDequeuing) hx (by rw [hm]; rfl) rfl).congr rfl rfl
  | stash hm hx => exact h.congr rfl (by rw [hm]; rfl)
  | giveUp hm hx => exact h.congr rfl (by rw [hm]; rfl)
  | loadDequeuing hm hop =>
    refine h.congr rfl ?_
    rw [hm]
    obtain ⟨-, rfl⟩ | ⟨-, rfl⟩ := hop <;> rfl
  | notifyNone hm hi => exact h.congr rfl (by rw [hm]; rfl)
  | notifyOne hm hw hi =>
    exact (h.setWorker (by rw [hw]; rfl)).setMain (by rw [State.setWorker, hm]; rfl)
  | advance hm hm' =>
    refine h.advance (by rw [hm]; rfl) ?_
    obtain ⟨x, -, rfl⟩ | ⟨x, next, -, rfl⟩ | ⟨n, -, ⟨-, rfl⟩ | ⟨-, rfl⟩⟩ := hm' <;> rfl
  | @pushToBackoffSQ x hm =>
    obtain ⟨next, head, heq⟩ := storeTail_eq (s.setNext x none) x
    rw [heq]
    exact h.congr rfl (by rw [hm]; rfl)
  | tick hm hc hd hp => exact h.congr rfl (by rw [hm]; rfl)
  | drainCQ hm hm' =>
    refine h.congr rfl ?_
    rw [hm]
    obtain ⟨-, rfl⟩ | ⟨-, rfl⟩ := hm' <;> rfl
  | reversed hm => exact h.congr rfl (by rw [hm]; rfl)
  | reverse hm => exact h.congr rfl (by rw [hm]; rfl)
  | processed hm => exact h.congr rfl (by rw [hm]; rfl)
  | resume hm => exact h.congr rfl (by rw [hm]; rfl)
  | suspend hm hc => exact h.congr rfl (by rw [hm]; rfl)
  | drained hm hb => exact h.congr rfl (by rw [hm]; rfl)
  | resubmit hm hb hd => exact h.congr rfl (by rw [hm]; rfl)
  | submitBackoffSQ hm => exact h.congr rfl (by rw [hm]; rfl)
  | submitted hm => exact h.congr rfl (by rw [hm]; rfl)
  | submit hm hd hx => exact h.congr rfl (by rw [hm]; rfl)
  | destroy hm hd hb => exact h.congr rfl (by rw [hm]; rfl)
  | join hm hn hw => exact h.congr rfl (by rw [hm]; rfl)
  | destroyed hm hn ht hq => exact h.congr rfl (by rw [hm]; rfl)

theorem Counted.step {a : Action c K} (h : Counted s) (hs : step s a = .ok t) : Counted t := by
  obtain ⟨i, hw⟩ | hm := step_cases hs
  · exact h.workerStep hw
  · exact h.mainStep hm

theorem counted_of_reach (h : Reach step anyAction (State.init c K) s) : Counted s :=
  h.invariant (counted_init c) fun _ _ _ h _ hs => h.step hs

/-! ### The bound -/

omit [DecidableEq K] in
theorem card_reads_le (c : Config) (w : Worker K) : (w.reads c).card ≤ 1 := by
  unfold Worker.reads
  cases w.head? with
  | none => exact Nat.zero_le 1
  | some head => exact le_rfl

omit [DecidableEq K] in
/-- No more readers are ahead of the items than there are threads. -/
theorem Counted.arrivals_le (h : Counted s) :
    s.arrivals.length ≤ s.pushes.length + c.threadCount := by
  have hreaders := congrArg Multiset.card h.readers
  have hitems := congrArg Multiset.card h.items
  simp only [Multiset.coe_card, Multiset.card_add] at hreaders hitems
  have hthreads : (∑ i, (s.workers i).reads c).card ≤ c.threadCount := calc
    (∑ i, (s.workers i).reads c).card = ∑ i, ((s.workers i).reads c).card :=
      map_sum Multiset.cardHom _ _
    _ ≤ ∑ _i : c.Thread, 1 := Finset.sum_le_sum fun i _ => card_reads_le c (s.workers i)
    _ = c.threadCount := by simp
  omega

omit [DecidableEq K] in
/-- A slot has met at most one more reader than items. -/
theorem Counted.count_arrivals_le (h : Counted s) (j : ℕ) :
    s.arrivals.count j ≤ s.pushes.count j + 1 := by
  have hle : s.arrivals.length ≤ s.pushes.length + c.sqCapacity :=
    h.arrivals_le.trans (Nat.add_le_add_left (threadCount_le c) _)
  rw [h.arrivals, h.pushes]
  exact (spread_slots c 0).count_map_range_le hle j

theorem getElem?_slots {l : List ℕ} (h : l = (List.range l.length).map c.slot) {n j : ℕ}
    (hn : l[n]? = some j) : j = c.slot n := by
  have hlt : n < l.length := (List.getElem?_eq_some_iff.1 hn).1
  rw [h, List.getElem?_map, List.getElem?_range hlt] at hn
  exact (Option.some.inj hn).symm

/-- Less than a round apart, the slots are distinct. -/
theorem slot_ne {l : List ℕ} (h : l = (List.range l.length).map c.slot) {n m j k : ℕ} (hlt : n < m)
    (hm : m < n + c.sqCapacity) (hj : l[n]? = some j) (hk : l[m]? = some k) : j ≠ k := by
  rw [getElem?_slots h hj, getElem?_slots h hk]
  intro heq
  have := spread_slots c 0 n (Set.mem_Ico.2 ⟨le_rfl, by omega⟩) (Set.mem_Ico.2 ⟨hlt.le, hm⟩) heq
  omega

/-- **Readers and items go around the ring alike.**  From any value on, as many values of a counter as
there are slots stand for as many slots, also if the counter wraps around.  In every run the tickets of
the readers and the pushes are for such slots; the reader with the `n`-th ticket waits where the `n`-th
item is pushed; and no slot is ahead by more than one reader. -/
theorem tickets (c : Config) (K : Type*) [DecidableEq K] :
    (∀ h, ((List.range c.sqCapacity).map fun n => c.index (c.advance^[n] h)).Nodup) ∧
      ∀ s : State c K, Reach step anyAction (State.init c K) s →
        (∀ l ∈ [s.arrivals, s.pushes], ∀ n m j k : ℕ, n < m → m < n + c.sqCapacity →
          l[n]? = some j → l[m]? = some k → j ≠ k) ∧
        (∀ n j k : ℕ, s.arrivals[n]? = some j → s.pushes[n]? = some k → j = k) ∧
        ∀ j, s.arrivals.count j ≤ s.pushes.count j + 1 := by
  refine ⟨fun h => ?_, fun s hr => ?_⟩
  · have hnodup := (spread_slots c h).nodup 0 le_rfl
    simpa only [Nat.zero_add] using hnodup
  · have h := counted_of_reach hr
    refine ⟨fun l hl n m j k hlt hm hj hk => ?_, fun n j k hj hk => ?_, h.count_arrivals_le⟩
    · rw [List.mem_pair] at hl
      obtain rfl | rfl := hl
      · exact slot_ne h.arrivals hlt hm hj hk
      · exact slot_ne h.pushes hlt hm hj hk
    · rw [getElem?_slots h.arrivals hj, getElem?_slots h.pushes hk]

/-- Two threads, where a counter wraps around after 147 tickets. -/
def twoThreads : Config where
  threadCount := 2
  threadCount_pos := by decide
  unsignedBits := 11
  sizeBits := 11
  unsignedBits_le := by decide
  capacity_lt := by decide

/-- The first thread runs a task, and draws another ticket while the second one waits. -/
def taskRun : List (Action twoThreads (Fin 2)) :=
  [.worker 0, .worker 1, .submit 0, .main, .main, .main, .worker 0, .worker 0, .worker 0, .worker 0,
    .worker 0, .worker 0, .worker 0, .submit 1, .main]

theorem tickets_taskRun : ∃ s, exec step (State.init twoThreads (Fin 2)) taskRun = .ok s ∧
    (s.arrivals, s.pushes) = ([0, 7, 14], [0, 7]) ∧
    ∀ j, s.arrivals.count j ≤ s.pushes.count j + 1 := by
  cases h : exec step (State.init twoThreads (Fin 2)) taskRun with
  | error e =>
    have hok : (exec step (State.init twoThreads (Fin 2)) taskRun).toOption.isSome := by decide +kernel
    rw [h] at hok
    cases hok
  | ok s =>
    have hlists : (exec step (State.init twoThreads (Fin 2)) taskRun).map
        (fun s => (s.arrivals, s.pushes)) = .ok ([0, 7, 14], [0, 7]) := by decide +kernel
    rw [h] at hlists
    exact ⟨s, rfl, Except.ok.inj hlists, ((tickets twoThreads (Fin 2)).2 s (reach_of_run h)).2.2⟩

end Corral.ThreadPool
