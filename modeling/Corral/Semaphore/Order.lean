import Corral.Lib.WaitQueue
import Corral.Semaphore.Steps

/-!
# `Semaphore`: the order of the waiters

Nobody takes a unit while somebody waits for one, and the units that are released go to those who wait,
in the order in which they were suspended.

* `State.parkings`, `State.withdrawals`, `State.wakes`: who was suspended, who was cancelled or
  destroyed while suspended, and who was woken, in the order in which it happened;
* `Ordered`: the wait list and the counter against these;
* `Served s t`: a step from `s` to `t` wakes the first waiter for a release, and nobody otherwise;
* `no_overtaking`: so it is in every run.
-/

namespace Corral.Semaphore

open Registry ActionMachine WaitQueue

def Event.parking? : Event → Option ℕ
  | .parked id => some id
  | _ => none

def Event.withdrawal? : Event → Option ℕ
  | .withdrawn id => some id
  | _ => none

def Event.wake? : Event → Option ℕ
  | .woken id => some id
  | _ => none

/-- A unit leaves the counter. -/
def Event.takes : Event → Bool
  | .acquired => true
  | .passed _ => true
  | .borrowed _ => true
  | _ => false

/-- A call of `release()`, whoever makes it. -/
def Event.released? : Event → Bool
  | .released _ _ => true
  | _ => false

def State.parkings (s : State) : List ℕ := s.log.filterMap Event.parking?

def State.withdrawals (s : State) : List ℕ := s.log.filterMap Event.withdrawal?

def State.wakes (s : State) : List ℕ := s.log.filterMap Event.wake?

def State.taken (s : State) : ℕ := s.log.countP Event.takes

def State.released (s : State) : ℕ := s.log.countP Event.released?

section Record

variable (s : State) (e : Event)

@[simp] theorem parkings_record :
    (s.record e).parkings = s.parkings ++ e.parking?.toList := by
  simp only [State.parkings, State.record, List.filterMap_append]
  cases e <;> rfl

@[simp] theorem withdrawals_record :
    (s.record e).withdrawals = s.withdrawals ++ e.withdrawal?.toList := by
  simp only [State.withdrawals, State.record, List.filterMap_append]
  cases e <;> rfl

@[simp] theorem wakes_record : (s.record e).wakes = s.wakes ++ e.wake?.toList := by
  simp only [State.wakes, State.record, List.filterMap_append]
  cases e <;> rfl

@[simp] theorem taken_record : (s.record e).taken = s.taken + if e.takes then 1 else 0 := by
  simp [State.taken, State.record, List.countP_append, List.countP_singleton]

@[simp] theorem released_record :
    (s.record e).released = s.released + if e.released? then 1 else 0 := by
  simp [State.released, State.record, List.countP_append, List.countP_singleton]

end Record

/-- The wait list holds the awaiters that are suspended, and those that have not been awaited have
never been in it; only these have borrowed a unit. -/
structure Enrolled (parked parkings : List ℕ) (awaiters : Reg ℕ Awaiter) (nextId : ℕ) : Prop where
  live : ∀ id ∈ parked, ∃ a, awaiters.lookup id = some a ∧ a.phase = .parked
  listed : ∀ id a, awaiters.lookup id = some a → a.phase = .parked → id ∈ parked
  fresh : ∀ id, nextId ≤ id → awaiters.lookup id = none
  known : ∀ id ∈ parkings, id < nextId
  unparked : ∀ id a, awaiters.lookup id = some a → a.phase = .constructed → id ∉ parkings
  borrower : ∀ id a, awaiters.lookup id = some a → a.borrowed = true → a.phase = .constructed

/-- The awaiters wait in the order in which they were suspended, and the counter is zero while one of
them does. -/
structure Ordered (s : State) : Prop where
  barred : s.parked ≠ [] → s.value = 0
  fifo : Fifo s.parkings s.withdrawals s.wakes s.parked
  enrolled : Enrolled s.parked s.parkings s.awaiters s.nextId
  withdrew : ∀ id ∈ s.withdrawals, id ∈ s.parkings

section Enrolled

variable {parked parked' parkings : List ℕ} {awaiters : Reg ℕ Awaiter} {nextId id : ℕ}
  {a b : Awaiter}

theorem Enrolled.lt_nextId (h : Enrolled parked parkings awaiters nextId)
    (ha : awaiters.lookup id = some a) : id < nextId := by
  by_contra hlt
  rw [h.fresh id (by omega)] at ha
  cases ha

theorem Enrolled.mem_iff (h : Enrolled parked parkings awaiters nextId)
    (ha : awaiters.lookup id = some a) : id ∈ parked ↔ a.phase = .parked := by
  constructor
  · intro hm
    obtain ⟨a', ha', hph⟩ := h.live id hm
    rw [ha] at ha'
    cases ha'
    exact hph
  · exact h.listed id a ha

theorem Enrolled.unborrowed (h : Enrolled parked parkings awaiters nextId)
    (ha : awaiters.lookup id = some a) (hp : a.phase = .parked) : a.borrowed = false := by
  by_contra hb
  have hc := h.borrower id a ha (by simpa using hb)
  rw [hp] at hc
  cases hc

/-- A new awaiter. -/
theorem Enrolled.register (h : Enrolled parked parkings awaiters nextId) (r : Retval) (got : Bool) :
    Enrolled parked parkings (awaiters.insert nextId ⟨r, got, .constructed⟩) (nextId + 1) := by
  obtain ⟨h₁, h₂, h₃, h₄, h₅, h₆⟩ := h
  have hold : ∀ id a, (awaiters.insert nextId ⟨r, got, .constructed⟩).lookup id = some a →
      id = nextId ∧ a = ⟨r, got, .constructed⟩ ∨ awaiters.lookup id = some a := by
    intro id a ha
    rw [lookup_insert_eq] at ha
    split_ifs at ha with heq
    · cases ha; exact .inl ⟨heq, rfl⟩
    · exact .inr ha
  refine ⟨fun id hid => ?_, fun id a ha hph => ?_, fun id hid => ?_, fun id hid => ?_,
    fun id a ha hph => ?_, fun id a ha hb => ?_⟩
  · obtain ⟨a, ha, hph⟩ := h₁ id hid
    have hne : id ≠ nextId := by
      rintro rfl
      rw [h₃ _ le_rfl] at ha
      cases ha
    exact ⟨a, by rw [lookup_insert_eq, if_neg hne, ha], hph⟩
  · rcases hold id a ha with ⟨-, rfl⟩ | ha
    · cases hph
    · exact h₂ id a ha hph
  · rw [lookup_insert_eq, if_neg (by omega)]
    exact h₃ id (by omega)
  · have := h₄ id hid
    omega
  · rcases hold id a ha with ⟨rfl, -⟩ | ha
    · intro hm
      exact absurd (h₄ _ hm) (lt_irrefl _)
    · exact h₅ id a ha hph
  · rcases hold id a ha with ⟨-, rfl⟩ | ha
    · rfl
    · exact h₆ id a ha hb

/-- An awaiter that does not wait any longer, or never has. -/
theorem Enrolled.settle (h : Enrolled parked parkings awaiters nextId)
    (ha : awaiters.lookup id = some a) (hp : ∀ x, x ∈ parked' ↔ x ∈ parked ∧ x ≠ id)
    (hb : b.borrowed = false) (hph : b.phase ≠ .parked ∧ b.phase ≠ .constructed) :
    Enrolled parked' parkings (awaiters.insert id b) nextId := by
  have hlt := h.lt_nextId ha
  obtain ⟨h₁, h₂, h₃, h₄, h₅, h₆⟩ := h
  refine ⟨fun k hk => ?_, fun k c hc hkp => ?_, fun k hk => ?_, h₄, fun k c hc hkc => ?_,
    fun k c hc hkb => ?_⟩
  · obtain ⟨hk, hne⟩ := (hp k).1 hk
    rw [lookup_insert_eq, if_neg hne]
    exact h₁ k hk
  all_goals rw [lookup_insert_eq] at *; split_ifs at * with heq
  · cases hc
    exact absurd hkp hph.1
  · exact (hp k).2 ⟨h₂ k c hc hkp, heq⟩
  · omega
  · exact h₃ k hk
  · cases hc
    exact absurd hkc hph.2
  · exact h₅ k c hc hkc
  · cases hc
    rw [hb] at hkb
    cases hkb
  · exact h₆ k c hc hkb

/-- An awaiter is suspended. -/
theorem Enrolled.park (h : Enrolled parked parkings awaiters nextId)
    (ha : awaiters.lookup id = some a) (hb : a.borrowed = false) :
    Enrolled (parked ++ [id]) (parkings ++ [id]) (awaiters.insert id { a with phase := .parked })
      nextId := by
  have hlt := h.lt_nextId ha
  obtain ⟨h₁, h₂, h₃, h₄, h₅, h₆⟩ := h
  refine ⟨fun k hk => ?_, fun k c hc hkp => ?_, fun k hk => ?_, fun k hk => ?_, fun k c hc hkc => ?_,
    fun k c hc hkb => ?_⟩
  · rw [lookup_insert_eq]
    split_ifs with heq
    · exact ⟨_, rfl, rfl⟩
    · exact h₁ k (by simpa [heq] using hk)
  · rw [lookup_insert_eq] at hc
    split_ifs at hc with heq
    · simp [heq]
    · exact List.mem_append_left _ (h₂ k c hc hkp)
  · rw [lookup_insert_eq, if_neg (by omega)]
    exact h₃ k hk
  · rcases List.mem_append.1 hk with hk | hk
    · exact h₄ k hk
    · rwa [List.mem_singleton.1 hk]
  · rw [lookup_insert_eq] at hc
    split_ifs at hc with heq
    · cases hc; cases hkc
    · simpa [heq] using h₅ k c hc hkc
  · rw [lookup_insert_eq] at hc
    split_ifs at hc with heq
    · cases hc
      rw [show a.borrowed = true from hkb] at hb
      cases hb
    · exact h₆ k c hc hkb

/-- An awaiter is destroyed. -/
theorem Enrolled.erase (h : Enrolled parked parkings awaiters nextId) (hn : parked.Nodup) :
    Enrolled (parked.erase id) parkings (awaiters.erase id) nextId := by
  obtain ⟨h₁, h₂, h₃, h₄, h₅, h₆⟩ := h
  refine ⟨fun k hk => ?_, fun k c hc hkp => ?_, fun k hk => ?_, h₄, fun k c hc hkc => ?_,
    fun k c hc hkb => ?_⟩
  · obtain ⟨hne, hk⟩ := (hn.mem_erase_iff).1 hk
    rw [lookup_erase_eq, if_neg hne]
    exact h₁ k hk
  · rw [lookup_erase_eq] at hc
    split_ifs at hc with heq
    exact (hn.mem_erase_iff).2 ⟨heq, h₂ k c hc hkp⟩
  · rw [lookup_erase_eq]
    split_ifs
    · rfl
    · exact h₃ k hk
  · exact h₅ k c (lookup_of_lookup_erase hc) hkc
  · exact h₆ k c (lookup_of_lookup_erase hc) hkb

end Enrolled

variable {s t : State} {id : ℕ} {a : Awaiter}

theorem ordered_init (initial : Fin (2 ^ 64)) : Ordered (State.init initial) where
  barred h := absurd rfl h
  fifo := .nil
  enrolled := ⟨nofun, nofun, fun _ _ => rfl, nofun, nofun, nofun⟩
  withdrew _ h := by cases h

/-- An event that is not about the wait list. -/
theorem Ordered.note {e : Event} (h : Ordered s) (hp : e.parking? = none)
    (hw : e.withdrawal? = none) (hk : e.wake? = none) : Ordered (s.record e) := by
  obtain ⟨h₁, h₂, h₃, h₄⟩ := h
  have hpk : (s.record e).parkings = s.parkings := by simp [hp]
  have hwd : (s.record e).withdrawals = s.withdrawals := by simp [hw]
  have hwk : (s.record e).wakes = s.wakes := by simp [hk]
  refine ⟨h₁, ?_, ?_, ?_⟩
  · rwa [hpk, hwd, hwk]
  · rwa [hpk]
  · rwa [hpk, hwd]

theorem Ordered.congr (h : Ordered s) (hal : Alike s t) : Ordered t := by
  obtain ⟨h₁, h₂, h₃, h₄⟩ := h
  have hpk : t.parkings = s.parkings := by rw [State.parkings, hal.log]; rfl
  have hwd : t.withdrawals = s.withdrawals := by rw [State.withdrawals, hal.log]; rfl
  have hwk : t.wakes = s.wakes := by rw [State.wakes, hal.log]; rfl
  refine ⟨?_, ?_, ?_, ?_⟩
  · rwa [hal.parked, hal.value]
  · rwa [hpk, hwd, hwk, hal.parked]
  · rwa [hal.parked, hpk, hal.awaiters, hal.nextId]
  · rwa [hwd, hpk]

/-- While nobody waits, the counter may have any value. -/
theorem Ordered.revalue (h : Ordered s) (hp : s.parked = []) (v : ℕ) :
    Ordered { s with value := v } :=
  ⟨fun hne => absurd hp hne, h.fifo, h.enrolled, h.withdrew⟩

theorem Ordered.parked_nodup (h : Ordered s) : s.parked.Nodup :=
  (List.nodup_append.1 h.fifo.nodup_append).2.1

theorem Ordered.parked_of_pos (h : Ordered s) (hv : 0 < s.value) : s.parked = [] := by
  by_contra hne
  have := h.barred hne
  omega

/-- An awaiter that does not wait is resumed, or passes. -/
theorem Ordered.settle {b : Awaiter} (h : Ordered s) (ha : s.awaiters.lookup id = some a)
    (hp : a.phase ≠ .parked) (hb : b.borrowed = false)
    (hph : b.phase ≠ .parked ∧ b.phase ≠ .constructed) : Ordered (s.setAwaiter id b) := by
  refine ⟨h.barred, h.fifo, h.enrolled.settle ha (fun x => ?_) hb hph, h.withdrew⟩
  refine ⟨fun hx => ⟨hx, ?_⟩, And.left⟩
  rintro rfl
  exact hp ((h.enrolled.mem_iff ha).1 hx)

/-- An awaiter is suspended. -/
theorem Ordered.park (h : Ordered s) (ha : s.awaiters.lookup id = some a)
    (hph : a.phase = .constructed) (hb : a.borrowed = false) (hv : s.value = 0) :
    Ordered ({ s.setAwaiter id { a with phase := .parked } with
      parked := s.parked ++ [id] }.record (.parked id)) := by
  have hnew : id ∉ s.parkings := h.enrolled.unparked id a ha hph
  refine ⟨fun _ => hv, ?_, ?_, ?_⟩
  · simp only [parkings_record, withdrawals_record, wakes_record, Event.parking?,
      Event.withdrawal?, Event.wake?, Option.toList_none, List.append_nil]
    exact h.fifo.arrive hnew fun hw => hnew (h.withdrew id hw)
  · simp only [parkings_record, Event.parking?]
    exact h.enrolled.park ha hb
  · intro k hk
    simp only [withdrawals_record, Event.withdrawal?, Option.toList_none, List.append_nil] at hk
    simp only [parkings_record]
    exact List.mem_append_left _ (h.withdrew k hk)

/-- A suspended awaiter leaves the wait list: it is cancelled or destroyed. -/
theorem Ordered.leave {u : State} (h : Ordered s) (hm : id ∈ s.parked) (hv : u.value = s.value)
    (hl : u.log = s.log) (hp : u.parked = s.parked.erase id)
    (he : Enrolled u.parked s.parkings u.awaiters u.nextId) : Ordered (u.record (.withdrawn id)) := by
  have hpk : u.parkings = s.parkings := by rw [State.parkings, hl]; rfl
  have hwd : u.withdrawals = s.withdrawals := by rw [State.withdrawals, hl]; rfl
  have hwk : u.wakes = s.wakes := by rw [State.wakes, hl]; rfl
  have hpark : id ∈ s.parkings := (h.fifo.mem_iff.1 (.inr hm)).1
  refine ⟨fun _ => ?_, ?_, ?_, ?_⟩
  · exact hv.trans (h.barred (List.ne_nil_of_mem hm))
  · simp only [parkings_record, withdrawals_record, wakes_record, hpk, hwd, hwk, Event.parking?,
      Event.withdrawal?, Event.wake?, Option.toList_none, List.append_nil]
    exact hp ▸ h.fifo.leave hm
  · simp only [parkings_record, hpk, Event.parking?, Option.toList_none, List.append_nil]
    exact he
  · intro k hk
    simp only [withdrawals_record, hwd, Event.withdrawal?] at hk
    simp only [parkings_record, hpk, Event.parking?, Option.toList_none, List.append_nil]
    rcases List.mem_append.1 hk with hk | hk
    · exact h.withdrew k hk
    · have hk : k = id := by simpa using hk
      rwa [hk]

theorem Ordered.erased (h : Ordered s) (ha : s.awaiters.lookup id = some a) :
    Ordered (s.erased id a) := by
  have he : Enrolled (s.parked.erase id) s.parkings (s.awaiters.erase id) s.nextId :=
    h.enrolled.erase h.parked_nodup
  unfold State.erased
  by_cases hp : a.phase = .parked
  · rw [if_pos hp]
    exact h.leave (h.enrolled.listed id a ha hp) rfl rfl rfl he
  · rw [if_neg hp]
    have hout : s.parked.erase id = s.parked :=
      List.erase_of_not_mem fun hm => hp ((h.enrolled.mem_iff ha).1 hm)
    rw [hout] at he ⊢
    exact ⟨h.barred, h.fifo, he, h.withdrew⟩

/-- The first one who waits is woken. -/
theorem Ordered.serve {u : State} {rest : List ℕ} (h : Ordered s) (hp : s.parked = id :: rest)
    (hv : u.value = s.value) (hl : u.log = s.log) (hr : u.parked = rest)
    (he : Enrolled u.parked s.parkings u.awaiters u.nextId) : Ordered (u.record (.woken id)) := by
  have hpk : u.parkings = s.parkings := by rw [State.parkings, hl]; rfl
  have hwd : u.withdrawals = s.withdrawals := by rw [State.withdrawals, hl]; rfl
  have hwk : u.wakes = s.wakes := by rw [State.wakes, hl]; rfl
  have hf := h.fifo
  rw [hp, ← hr] at hf
  refine ⟨fun _ => ?_, ?_, ?_, ?_⟩
  · exact hv.trans (h.barred (by simp [hp]))
  · simp only [parkings_record, withdrawals_record, wakes_record, hpk, hwd, hwk, Event.parking?,
      Event.withdrawal?, Event.wake?, Option.toList_none, List.append_nil]
    exact hf.serve
  · simp only [parkings_record, hpk, Event.parking?, Option.toList_none, List.append_nil]
    exact he
  · simp only [withdrawals_record, parkings_record, hwd, hpk, Event.withdrawal?, Event.parking?,
      Option.toList_none, List.append_nil]
    exact h.withdrew

theorem Ordered.wake {rest : List ℕ} {byUser : Bool} (h : Ordered s) (hp : s.parked = id :: rest)
    (ha : s.awaiters.lookup id = some a) : Ordered (s.wake byUser id rest a) := by
  have hph : a.phase = .parked := (h.enrolled.mem_iff ha).1 (by simp [hp])
  have hb := h.enrolled.unborrowed ha hph
  have hn : (id :: rest).Nodup := hp ▸ h.parked_nodup
  have hmem : ∀ x, x ∈ rest ↔ x ∈ s.parked ∧ x ≠ id := by
    intro x
    rw [hp, List.mem_cons]
    constructor
    · intro hx
      exact ⟨.inr hx, by rintro rfl; exact (List.nodup_cons.1 hn).1 hx⟩
    · rintro ⟨rfl | hx, hne⟩
      · exact absurd rfl hne
      · exact hx
  have hset : Enrolled rest s.parkings (s.awaiters.insert id { a with phase := .woken }) s.nextId :=
    h.enrolled.settle ha hmem hb ⟨nofun, nofun⟩
  have hrel := h.note (e := .released byUser false) rfl rfl rfl
  refine hrel.serve hp rfl rfl rfl ?_
  simp only [parkings_record, Event.parking?, Option.toList_none, List.append_nil]
  exact hset

theorem Ordered.release {byUser : Bool} (h : Ordered s) (hs : s.release byUser = .ok t) :
    Ordered t := by
  rcases release_cases hs with ⟨hp, rfl⟩ | ⟨id, rest, a, hp, ha, rfl⟩
  · exact (h.note rfl rfl rfl).revalue hp _
  · exact h.wake hp ha

/-- The step lemma. -/
theorem Ordered.step {act : Action} (h : Ordered s) (hs : step s act = .ok t) : Ordered t := by
  cases does_of_step hs with
  | newAwaiter r =>
    rcases newAwaiter_cases s r with ⟨-, he⟩ | ⟨hv, he⟩
    · rw [he]
      exact ⟨h.barred, h.fifo, h.enrolled.register r false, h.withdrew⟩
    · rw [he]
      have hr := h.revalue (h.parked_of_pos hv) (s.value - 1)
      have hnew : Ordered { ({ s with value := s.value - 1 }.setAwaiter s.nextId
          ⟨r, true, .constructed⟩) with nextId := s.nextId + 1 } :=
        ⟨hr.barred, hr.fifo, hr.enrolled.register r true, hr.withdrew⟩
      exact hnew.note (e := .borrowed s.nextId) rfl rfl rfl
  | @awaitSuspend id a _ ha hs =>
    rcases awaitSuspend_cases hs with ⟨hph, hb, ⟨hv, rfl⟩ | ⟨hv, rfl⟩⟩
    · have hr := h.revalue (h.parked_of_pos hv) (s.value - 1)
      have hset := hr.settle (b := { a with phase := .passed }) ha (by rw [hph]; nofun) hb
        ⟨nofun, nofun⟩
      exact hset.note (e := .passed id) rfl rfl rfl
    · exact h.park ha hph hb hv
  | @awaitResume id a _ ha hs =>
    obtain ⟨hph, hs⟩ := awaitResume_cases hs
    have hset : Ordered (s.resumed id a) := by
      have hb := h.settle (b := { a with borrowed := false, phase := .done }) ha
        (by rintro hp; simp [hp] at hph) rfl ⟨nofun, nofun⟩
      unfold State.resumed
      by_cases hbo : a.borrowed = true
      · rw [if_pos hbo]
        exact hb.note (e := .consumed id) rfl rfl rfl
      · rw [if_neg hbo]
        exact hb
    rcases hs with rfl | rfl
    · exact hset
    · exact ⟨hset.barred, hset.fifo, hset.enrolled, hset.withdrew⟩
  | @awaitCancel id a _ ha hs =>
    obtain ⟨hph, rfl⟩ := awaitCancel_cases hs
    have hm := h.enrolled.listed id a ha hph
    have hmem : ∀ x, x ∈ s.parked.erase id ↔ x ∈ s.parked ∧ x ≠ id := fun x =>
      h.parked_nodup.mem_erase_iff.trans And.comm
    have hb := h.enrolled.unborrowed ha hph
    exact h.leave hm rfl rfl rfl (h.enrolled.settle ha hmem hb ⟨nofun, nofun⟩)
  | destroy ha hs =>
    rcases destroy_cases hs with ⟨-, rfl⟩ | ⟨-, hs⟩
    · exact h.erased ha
    · exact (h.erased ha).release hs
  | tryAcquire =>
    rcases tryAcquire_cases s with ⟨-, he⟩ | ⟨hv, he⟩
    · rw [he]
      exact h
    · rw [he]
      exact (h.revalue (h.parked_of_pos hv) _).note rfl rfl rfl
  | release hal hs =>
    exact (h.congr hal).release hs
  | nothing hal => exact h.congr hal

theorem ordered_of_reach {initial : Fin (2 ^ 64)}
    (h : Reach step anyAction (State.init initial) s) : Ordered s :=
  h.invariant (ordered_init initial) fun _ _ _ ho _ hs => ho.step hs

/-! ### What a release does -/

/-- What a step does to those who wait: for a release, the first of them is woken, with the unit; without
a release, nobody is. -/
inductive Served (s t : State) : Prop
  | without : t.released = s.released → t.wakes = s.wakes → Served s t
  | counted : t.released = s.released + 1 → s.parked = [] → t.wakes = s.wakes →
      t.value = (s.value + 1) % 2 ^ 64 → Served s t
  | handed {id : ℕ} {rest : List ℕ} {a : Awaiter} : t.released = s.released + 1 →
      s.parked = id :: rest → t.parked = rest → t.wakes = s.wakes ++ [id] → t.value = s.value →
      t.awaiters.lookup id = some a → a.phase = .woken → Served s t

/-- What `Served` is about, in the state before. -/
theorem Served.congr {s' : State} (h : Served s' t) (hv : s'.value = s.value)
    (hp : s'.parked = s.parked) (hr : s'.released = s.released) (hw : s'.wakes = s.wakes) :
    Served s t := by
  cases h with
  | without h₁ h₂ => exact .without (h₁.trans hr) (h₂.trans hw)
  | counted h₁ h₂ h₃ h₄ =>
    exact .counted (h₁.trans (by rw [hr])) (hp ▸ h₂) (h₃.trans hw) (h₄.trans (by rw [hv]))
  | handed h₁ h₂ h₃ h₄ h₅ h₆ h₇ =>
    exact .handed (h₁.trans (by rw [hr])) (hp ▸ h₂) h₃ (h₄.trans (by rw [hw])) (h₅.trans hv) h₆ h₇

theorem served_release {byUser : Bool} (hs : s.release byUser = .ok t) : Served s t := by
  rcases release_cases hs with ⟨hp, rfl⟩ | ⟨id, rest, a, hp, ha, rfl⟩
  · refine .counted ?_ hp ?_ rfl
    · exact released_record s _
    · exact (wakes_record s _).trans (List.append_nil _)
  · refine .handed (a := { a with phase := .woken }) ?_ hp rfl ?_ rfl (AList.lookup_insert _) rfl
    · exact (released_record _ (.woken id)).trans (released_record s (.released byUser false))
    · refine (wakes_record _ (.woken id)).trans ?_
      exact congrArg (· ++ [id]) ((wakes_record s (.released byUser false)).trans (List.append_nil _))

theorem taken_release {byUser : Bool} (hs : s.release byUser = .ok t) : t.taken = s.taken := by
  rcases release_cases hs with ⟨-, rfl⟩ | ⟨id, rest, a, -, -, rfl⟩
  · exact taken_record s _
  · exact (taken_record _ (.woken id)).trans (taken_record s (.released byUser false))

/-- At most one event happens, and it is neither a release nor an awaiter that is woken. -/
def Quiet (s t : State) : Prop :=
  ∃ e : Option Event, t.log = s.log ++ e.toList ∧ ∀ x ∈ e, x.released? = false ∧ x.wake? = none

theorem Quiet.served (h : Quiet s t) : Served s t := by
  obtain ⟨e, hl, he⟩ := h
  cases e with
  | none =>
    rw [Option.toList_none, List.append_nil] at hl
    exact .without (by rw [State.released, hl]; rfl) (by rw [State.wakes, hl]; rfl)
  | some x =>
    obtain ⟨hr, hk⟩ := he x rfl
    refine .without ?_ ?_
    · simp [State.released, hl, hr]
    · simp [State.wakes, hl, hk]

theorem Quiet.of_record {u : State} {e : Event} (hl : u.log = s.log) (hr : e.released? = false)
    (hk : e.wake? = none) : Quiet s (u.record e) :=
  ⟨some e, by rw [State.record, hl]; rfl, fun x hx => by cases hx; exact ⟨hr, hk⟩⟩

theorem Quiet.of_log (hl : t.log = s.log) : Quiet s t := ⟨none, by simp [hl], by simp⟩

theorem quiet_erased : Quiet s (s.erased id a) := by
  unfold State.erased
  by_cases hp : a.phase = .parked
  · rw [if_pos hp]
    exact .of_record rfl rfl rfl
  · rw [if_neg hp]
    exact .of_log rfl

/-- An awaiter that gives back what it has borrowed is not in the wait list. -/
theorem Ordered.erased_of_borrowed (h : Ordered s) (ha : s.awaiters.lookup id = some a)
    (hb : a.borrowed = true) :
    s.erased id a = { s with awaiters := s.awaiters.erase id } := by
  have hc : a.phase = .constructed := h.enrolled.borrower id a ha hb
  have hp : a.phase ≠ .parked := by rw [hc]; nofun
  have hout : s.parked.erase id = s.parked :=
    List.erase_of_not_mem fun hm => hp ((h.enrolled.mem_iff ha).1 hm)
  rw [State.erased, if_neg hp, hout]

/-- A step makes at most one release, which wakes the first waiter if there is one. -/
theorem served_of_step {act : Action} (h : Ordered s) (hs : step s act = .ok t) : Served s t := by
  cases does_of_step hs with
  | newAwaiter r =>
    rcases newAwaiter_cases s r with ⟨-, he⟩ | ⟨-, he⟩
    · rw [he]
      exact Quiet.served (.of_log rfl)
    · rw [he]
      exact Quiet.served (.of_record rfl rfl rfl)
  | awaitSuspend ha hs =>
    rcases awaitSuspend_cases hs with ⟨-, -, ⟨-, rfl⟩ | ⟨-, rfl⟩⟩
    · exact Quiet.served (.of_record rfl rfl rfl)
    · exact Quiet.served (.of_record rfl rfl rfl)
  | @awaitResume id a _ ha hs =>
    have hq : Quiet s (s.resumed id a) := by
      unfold State.resumed
      by_cases hb : a.borrowed = true
      · rw [if_pos hb]
        exact .of_record rfl rfl rfl
      · rw [if_neg hb]
        exact .of_log rfl
    rcases (awaitResume_cases hs).2 with rfl | rfl
    · exact hq.served
    · exact Quiet.served hq
  | awaitCancel ha hs =>
    obtain ⟨-, rfl⟩ := awaitCancel_cases hs
    exact Quiet.served (.of_record rfl rfl rfl)
  | destroy ha hs =>
    rcases destroy_cases hs with ⟨-, rfl⟩ | ⟨hb, hs⟩
    · exact quiet_erased.served
    · rw [h.erased_of_borrowed ha hb] at hs
      exact (served_release hs).congr rfl rfl rfl rfl
  | tryAcquire =>
    rcases tryAcquire_cases s with ⟨-, he⟩ | ⟨-, he⟩
    · rw [he]
      exact Quiet.served (.of_log rfl)
    · rw [he]
      exact Quiet.served (.of_record rfl rfl rfl)
  | release hal hs =>
    refine (served_release hs).congr hal.value hal.parked ?_ ?_
    · rw [State.released, hal.log]; rfl
    · rw [State.wakes, hal.log]; rfl
  | nothing hal => exact Quiet.served (.of_log hal.log)

/-- While somebody waits, no unit leaves the counter. -/
theorem taken_of_step {act : Action} (h : Ordered s) (hs : step s act = .ok t)
    (hp : s.parked ≠ []) : t.taken = s.taken := by
  have hv : s.value = 0 := h.barred hp
  cases does_of_step hs with
  | newAwaiter r =>
    rcases newAwaiter_cases s r with ⟨-, he⟩ | ⟨hpos, -⟩
    · rw [he]; rfl
    · omega
  | awaitSuspend ha hs =>
    rcases awaitSuspend_cases hs with ⟨-, -, ⟨hpos, -⟩ | ⟨-, rfl⟩⟩
    · omega
    · exact taken_record _ _
  | @awaitResume id a _ ha hs =>
    have hr : (s.resumed id a).taken = s.taken := by
      unfold State.resumed
      by_cases hb : a.borrowed = true
      · rw [if_pos hb]
        exact taken_record _ (.consumed id)
      · rw [if_neg hb]; rfl
    rcases (awaitResume_cases hs).2 with rfl | rfl
    · exact hr
    · exact hr
  | @awaitCancel id a _ ha hs =>
    obtain ⟨-, rfl⟩ := awaitCancel_cases hs
    exact taken_record _ (.withdrawn id)
  | @destroy id a _ ha hs =>
    have he : (s.erased id a).taken = s.taken := by
      unfold State.erased
      by_cases hph : a.phase = .parked
      · rw [if_pos hph]
        exact taken_record _ (.withdrawn id)
      · rw [if_neg hph]; rfl
    rcases destroy_cases hs with ⟨-, rfl⟩ | ⟨-, hs⟩
    · exact he
    · exact (taken_release hs).trans he
  | tryAcquire =>
    rcases tryAcquire_cases s with ⟨-, he⟩ | ⟨hpos, -⟩
    · rw [he]; rfl
    · omega
  | release hal hs =>
    refine (taken_release hs).trans ?_
    rw [State.taken, hal.log]; rfl
  | nothing hal =>
    rw [State.taken, hal.log]; rfl

/-- While an awaiter is suspended the counter is zero, so that nobody takes a unit before it; awaiters
are woken in the order in which they were suspended, but for those that have been cancelled or
destroyed, and each release wakes one of them. -/
theorem no_overtaking (initial : Fin (2 ^ 64)) {s : State}
    (h : Reach step anyAction (State.init initial) s) :
    (s.parked ≠ [] → s.value = 0 ∧ s.tryAcquire = (false, s) ∧
      ∀ act t, step s act = .ok t → t.taken = s.taken) ∧
    (∀ id, id ∈ s.parked ↔ ∃ a, s.awaiters.lookup id = some a ∧ a.phase = .parked) ∧
    Fifo s.parkings s.withdrawals s.wakes s.parked ∧
    ∀ act t, step s act = .ok t → Served s t := by
  have ho := ordered_of_reach h
  refine ⟨fun hp => ⟨ho.barred hp, ?_, fun _ _ hs => taken_of_step ho hs hp⟩, fun id => ?_, ho.fifo,
    fun _ _ hs => served_of_step ho hs⟩
  · rw [State.tryAcquire, if_pos (ho.barred hp)]
  · constructor
    · exact ho.enrolled.live id
    · rintro ⟨a, ha, hph⟩
      exact ho.enrolled.listed id a ha hph

/-- Two awaiters are suspended, the first is cancelled, and a release goes to the second one. -/
theorem no_overtaking_cancelled : ∃ s,
    exec step (State.init 0) [.newAwaiter .void, .newAwaiter .lock, .awaitSuspend 0,
      .awaitSuspend 1, .awaitCancel 0, .release] = .ok s ∧
    Fifo [0, 1] [0] [1] s.parked ∧ s.value = 0 :=
  have hrun : exec step (State.init 0) [.newAwaiter .void, .newAwaiter .lock, .awaitSuspend 0,
      .awaitSuspend 1, .awaitCancel 0, .release]
      = .ok ⟨0, [], ((∅ : Reg ℕ Awaiter).insert 0 ⟨.void, false, .cancelled⟩).insert 1
        ⟨.lock, false, .woken⟩, 2, ∅, 0, 1,
        [.parked 0, .parked 1, .withdrawn 0, .released true false, .woken 1]⟩ := rfl
  ⟨_, hrun, (no_overtaking 0 (reach_of_run hrun)).2.2.1, rfl⟩

end Corral.Semaphore
