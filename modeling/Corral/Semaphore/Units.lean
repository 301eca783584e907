import Corral.Semaphore.Steps

/-!
# `Semaphore`: the units

Every unit is in the counter, borrowed by a live awaiter, or has been granted.

* `grants`, `releases`: the acquisitions granted and the releases made, by users and by `Lock`s;
* `Balanced`: the account of the units, in which each release by which the counter wraps loses `2 ^ 64`
  of them;
* `units_balance`: so it is in every state of every run.
-/

namespace Corral.Semaphore

open Registry ActionMachine

/-- A unit has been granted: to `tryAcquire()`, or by `await_resume()`, by `await_suspend()`, or by a
release to a waiter. -/
def Event.isGrant : Event → Bool
  | .acquired => true
  | .consumed _ => true
  | .passed _ => true
  | .woken _ => true
  | _ => false

/-- A release by the user or by a `Lock`. -/
def Event.isRelease : Event → Bool
  | .released byUser _ => byUser
  | _ => false

/-- A release by which the counter wraps. -/
def Event.wraps : Event → Bool
  | .released _ full => full
  | _ => false

def State.grants (s : State) : ℕ := s.log.countP Event.isGrant

def State.releases (s : State) : ℕ := s.log.countP Event.isRelease

def State.wraps (s : State) : ℕ := s.log.countP Event.wraps

/-- The live awaiters that have borrowed a unit. -/
def State.borrows (s : State) : ℕ := count Awaiter.borrowed s.awaiters

/-- The account of a semaphore that started with `initial` units, when `owed` of them have been taken
out of the record of an awaiter and not yet been released. -/
structure Balanced (initial owed : ℕ) (s : State) : Prop where
  units : s.value + s.borrows + owed + s.grants + 2 ^ 64 * s.wraps = initial + s.releases
  bound : s.value < 2 ^ 64
  fresh : ∀ id, s.nextId ≤ id → s.awaiters.lookup id = none

section Record

variable (s : State) (e : Event)

@[simp] theorem grants_record : (s.record e).grants = s.grants + if e.isGrant then 1 else 0 := by
  simp [State.grants, State.record, List.countP_append, List.countP_singleton]

@[simp] theorem releases_record :
    (s.record e).releases = s.releases + if e.isRelease then 1 else 0 := by
  simp [State.releases, State.record, List.countP_append, List.countP_singleton]

@[simp] theorem wraps_record : (s.record e).wraps = s.wraps + if e.wraps then 1 else 0 := by
  simp [State.wraps, State.record, List.countP_append, List.countP_singleton]

end Record

variable {initial owed : ℕ} {s t : State} {id : ℕ} {a : Awaiter}

theorem balanced_init (initial : Fin (2 ^ 64)) : Balanced initial 0 (State.init initial) :=
  ⟨rfl, initial.isLt, fun _ _ => rfl⟩

/-- What the account is about. -/
theorem Balanced.congr (h : Balanced initial owed s) (hv : t.value = s.value)
    (ha : t.awaiters = s.awaiters) (hn : t.nextId = s.nextId) (hl : t.log = s.log) :
    Balanced initial owed t := by
  obtain ⟨h₁, h₂, h₃⟩ := h
  refine ⟨?_, by rwa [hv], by rwa [hn, ha]⟩
  simpa only [State.borrows, State.grants, State.wraps, State.releases, hv, ha, hl] using h₁

/-- A unit is taken out of the record of an awaiter, and an event without effect on the units is
recorded. -/
theorem Balanced.replace {b : Awaiter} (h : Balanced initial owed s)
    (ha : s.awaiters.lookup id = some a) (hle : b.borrowed = true → a.borrowed = true) :
    Balanced initial (owed + if a.borrowed ∧ ¬ b.borrowed then 1 else 0) (s.setAwaiter id b) := by
  obtain ⟨h₁, h₂, h₃⟩ := h
  refine ⟨?_, h₂, fun k hk => ?_⟩
  · have hc := count_insert Awaiter.borrowed b ha
    simp only [State.borrows, State.setAwaiter] at h₁ ⊢
    show s.value + _ + _ + s.grants + 2 ^ 64 * s.wraps = initial + s.releases
    cases ha : a.borrowed <;> cases hb : b.borrowed <;> simp_all
    all_goals omega
  · have hne : k ≠ id := by
      rintro rfl
      rw [h₃ k hk] at ha
      cases ha
    simp only [State.setAwaiter, lookup_insert_eq, if_neg hne]
    exact h₃ k hk

/-- Nothing is taken out of the record of an awaiter. -/
theorem Balanced.rephase {b : Awaiter} (h : Balanced initial owed s)
    (ha : s.awaiters.lookup id = some a) (hb : b.borrowed = a.borrowed) :
    Balanced initial owed (s.setAwaiter id b) := by
  have hr := h.replace ha fun h' => hb ▸ h'
  rwa [if_neg (by simp [hb])] at hr

/-- A unit that is owed has been granted. -/
theorem Balanced.grant (h : Balanced initial (owed + 1) s) {e : Event} (hg : e.isGrant = true)
    (hr : e.isRelease = false) (hw : e.wraps = false) : Balanced initial owed (s.record e) := by
  obtain ⟨h₁, h₂, h₃⟩ := h
  refine ⟨?_, h₂, h₃⟩
  simp only [grants_record, releases_record, wraps_record, hg, hr, hw, if_true, Bool.false_eq_true,
    if_false]
  show s.value + s.borrows + _ + _ + _ = _
  omega

theorem Balanced.note (h : Balanced initial owed s) {e : Event} (hg : e.isGrant = false)
    (hr : e.isRelease = false) (hw : e.wraps = false) : Balanced initial owed (s.record e) := by
  obtain ⟨h₁, h₂, h₃⟩ := h
  refine ⟨?_, h₂, h₃⟩
  simp only [grants_record, releases_record, wraps_record, hg, hr, hw, Bool.false_eq_true, if_false]
  exact h₁

/-- A unit is taken out of the counter. -/
theorem Balanced.take (h : Balanced initial owed s) (hv : 0 < s.value) :
    Balanced initial (owed + 1) { s with value := s.value - 1 } := by
  obtain ⟨h₁, h₂, h₃⟩ := h
  refine ⟨?_, by show s.value - 1 < _; omega, h₃⟩
  show s.value - 1 + s.borrows + (owed + 1) + s.grants + 2 ^ 64 * s.wraps = initial + s.releases
  omega

/-- A new awaiter, which borrows what is owed. -/
theorem Balanced.register {r : Retval} {got : Bool} {ph : Phase}
    (h : Balanced initial (owed + if got then 1 else 0) s) :
    Balanced initial owed
      { s.setAwaiter s.nextId ⟨r, got, ph⟩ with nextId := s.nextId + 1 } := by
  obtain ⟨h₁, h₂, h₃⟩ := h
  refine ⟨?_, h₂, fun k hk => ?_⟩
  · have hc := count_insert_new Awaiter.borrowed ⟨r, got, ph⟩ (h₃ _ le_rfl)
    simp only [State.borrows, State.setAwaiter] at h₁ hc ⊢
    show s.value + _ + _ + s.grants + 2 ^ 64 * s.wraps = initial + s.releases
    omega
  · have hk' : s.nextId + 1 ≤ k := hk
    simp only [State.setAwaiter, lookup_insert_eq, if_neg (show k ≠ s.nextId by omega)]
    exact h₃ k (by omega)

/-- An awaiter is destroyed; what it has borrowed is owed. -/
theorem Balanced.erased (h : Balanced initial 0 s) (ha : s.awaiters.lookup id = some a) :
    Balanced initial (if a.borrowed then 1 else 0) (s.erased id a) := by
  obtain ⟨h₁, h₂, h₃⟩ := h
  have hb : Balanced initial (if a.borrowed then 1 else 0)
      { s with awaiters := s.awaiters.erase id, parked := s.parked.erase id } := by
    refine ⟨?_, h₂, fun k hk => ?_⟩
    · have hc := count_erase Awaiter.borrowed ha
      simp only [State.borrows] at h₁ hc ⊢
      show s.value + _ + _ + s.grants + 2 ^ 64 * s.wraps = initial + s.releases
      omega
    · simp only [lookup_erase_eq]
      split_ifs
      · rfl
      · exact h₃ k hk
  unfold State.erased
  by_cases hp : a.phase = .parked
  · rw [if_pos hp]
    exact hb.note rfl rfl rfl
  · rw [if_neg hp]
    exact hb

/-- What an awaiter has borrowed is granted to it when it is resumed. -/
theorem Balanced.resumed (h : Balanced initial 0 s) (ha : s.awaiters.lookup id = some a) :
    Balanced initial 0 (s.resumed id a) := by
  unfold State.resumed
  cases hb : a.borrowed with
  | true =>
    have hr := h.replace (b := { a with borrowed := false, phase := .done }) ha (by simp)
    rw [if_pos (by simp [hb])] at hr
    exact hr.grant rfl rfl rfl
  | false => exact h.rephase ha hb.symm

/-- A release by the user adds a unit; any other one releases a unit that is owed. -/
theorem Balanced.release (byUser : Bool) (h : Balanced initial (if byUser then 0 else 1) s)
    (hs : s.release byUser = .ok t) : Balanced initial 0 t := by
  rcases release_cases hs with ⟨-, rfl⟩ | ⟨id, rest, a, -, ha, rfl⟩
  · obtain ⟨h₁, h₂, h₃⟩ := h
    refine ⟨?_, Nat.mod_lt _ (by norm_num), h₃⟩
    show (s.value + 1) % 2 ^ 64 + s.borrows + 0 + (s.record _).grants + 2 ^ 64 * (s.record _).wraps
      = initial + (s.record _).releases
    simp only [grants_record, releases_record, wraps_record, Event.isGrant, Event.isRelease,
      Event.wraps, Bool.false_eq_true, if_false, decide_eq_true_eq]
    rcases Nat.lt_or_ge (s.value + 1) (2 ^ 64) with hlt | hge
    · rw [Nat.mod_eq_of_lt hlt, if_neg (by omega)]
      cases byUser <;> simp at h₁ ⊢ <;> omega
    · -- the counter wraps
      have hfull : s.value + 1 = 2 ^ 64 := by omega
      rw [if_pos hfull, hfull, Nat.mod_self]
      cases byUser <;> simp at h₁ ⊢ <;> omega
  · have hrec : Balanced initial 1 (s.record (.released byUser false)) := by
      obtain ⟨h₁, h₂, h₃⟩ := h
      refine ⟨?_, h₂, h₃⟩
      show s.value + s.borrows + 1 + (s.record _).grants + 2 ^ 64 * (s.record _).wraps
        = initial + (s.record _).releases
      simp only [grants_record, releases_record, wraps_record, Event.isGrant, Event.isRelease,
        Event.wraps, Bool.false_eq_true, if_false]
      cases byUser <;> simp at h₁ ⊢ <;> omega
    have hpop : Balanced initial 1 { s.record (.released byUser false) with
        parked := rest, depth := s.depth + 1 } := hrec.congr rfl rfl rfl rfl
    exact (hpop.rephase (b := { a with phase := .woken }) ha rfl).grant (e := .woken id) rfl rfl rfl

/-- The step lemma. -/
theorem Balanced.step {act : Action} (h : Balanced initial 0 s) (hs : step s act = .ok t) :
    Balanced initial 0 t := by
  cases does_of_step hs with
  | newAwaiter r =>
    rcases newAwaiter_cases s r with ⟨-, he⟩ | ⟨hv, he⟩
    · rw [he]
      exact h.register
    · rw [he]
      exact (h.take hv).register.note rfl rfl rfl
  | @awaitSuspend id a _ ha hs =>
    rcases awaitSuspend_cases hs with ⟨-, -, ⟨hv, rfl⟩ | ⟨-, rfl⟩⟩
    · exact ((h.take hv).rephase (b := { a with phase := .passed }) ha rfl).grant (e := .passed id)
        rfl rfl rfl
    · have hset := (h.rephase (b := { a with phase := .parked }) ha rfl).note (e := .parked id)
        rfl rfl rfl
      exact hset.congr rfl rfl rfl rfl
  | awaitResume ha hs =>
    have hr := h.resumed ha
    rcases (awaitResume_cases hs).2 with rfl | rfl
    · exact hr
    · exact hr.congr rfl rfl rfl rfl
  | @awaitCancel id a _ ha hs =>
    obtain ⟨-, rfl⟩ := awaitCancel_cases hs
    have hout : Balanced initial 0 { s with parked := s.parked.erase id } := h.congr rfl rfl rfl rfl
    exact (hout.rephase (b := { a with phase := .cancelled }) ha rfl).note (e := .withdrawn id)
      rfl rfl rfl
  | destroy ha hs =>
    rcases destroy_cases hs with ⟨hb, rfl⟩ | ⟨hb, hs⟩
    · have he := h.erased ha
      rwa [hb] at he
    · have he := h.erased ha
      rw [hb] at he
      exact Balanced.release false he hs
  | tryAcquire =>
    rcases tryAcquire_cases s with ⟨-, he⟩ | ⟨hv, he⟩
    · rw [he]
      exact h
    · rw [he]
      exact (h.take hv).grant rfl rfl rfl
  | release hal hs =>
    exact Balanced.release true (h.congr hal.value hal.awaiters hal.nextId hal.log) hs
  | nothing hal => exact h.congr hal.value hal.awaiters hal.nextId hal.log

theorem balanced_of_reach {initial : Fin (2 ^ 64)}
    (h : Reach step anyAction (State.init initial) s) : Balanced initial 0 s :=
  h.invariant (balanced_init initial) fun _ _ _ hb _ hs => hb.step hs

/-- Units are neither lost nor created, but for the `2 ^ 64` that the counter loses whenever it wraps:
when a unit is released while it has its largest value and nobody waits. -/
theorem units_balance (initial : Fin (2 ^ 64)) {s : State}
    (h : Reach step anyAction (State.init initial) s) :
    s.value + s.borrows + s.grants + 2 ^ 64 * s.wraps = initial + s.releases :=
  (balanced_of_reach h).units

/-- One awaiter borrows the only unit, the other is suspended; the first is destroyed, and what it
gives back goes to the second one. -/
theorem units_balance_handover : ∃ s,
    exec step (State.init 1) [.newAwaiter .void, .newAwaiter .lock, .awaitSuspend 1, .destroy 0]
      = .ok s ∧ s.value = 0 ∧ s.borrows = 0 ∧ s.grants = 1 ∧
    s.value + s.borrows + s.grants + 2 ^ 64 * s.wraps = 1 + s.releases :=
  have hrun : exec step (State.init 1)
      [.newAwaiter .void, .newAwaiter .lock, .awaitSuspend 1, .destroy 0]
      = .ok ⟨0, [], (∅ : Reg ℕ Awaiter).insert 1 ⟨.lock, false, .woken⟩, 2, ∅, 0, 1,
        [.borrowed 0, .parked 1, .released false false, .woken 1]⟩ := rfl
  ⟨_, hrun, rfl, rfl, rfl, units_balance 1 (reach_of_run hrun)⟩

/-- A unit is released while the counter has its largest value. -/
theorem not_units_balance : ¬ ∀ (initial : Fin (2 ^ 64)) (s : State),
    Reach step anyAction (State.init initial) s →
      s.value + s.borrows + s.grants = initial + s.releases := by
  intro h
  have hs : step (State.init (Fin.last _)) .release
      = .ok ⟨0, [], ∅, 0, ∅, 0, 0, [.released true true]⟩ := by
    simp [step, State.release, State.record, State.init]
  have hreach : Reach step anyAction _ _ := Reach.refl.tail trivial hs
  have hbal : 0 + 0 + 0 = 2 ^ 64 - 1 + 1 := h (Fin.last _) _ hreach
  omega

end Corral.Semaphore
