import Corral.Semaphore.Model

/-!
# `Semaphore`: what one call can do

One lemma for each function of the model that has several outcomes; the invariants of the later files
are derived from these.
-/

namespace Corral.Semaphore

open Registry ActionMachine

variable {s t : State} {id : ℕ} {a : Awaiter}

theorem tryAcquire_cases (s : State) :
    s.value = 0 ∧ s.tryAcquire = (false, s) ∨
    0 < s.value ∧ s.tryAcquire = (true, { s with value := s.value - 1 }) := by
  unfold State.tryAcquire
  split_ifs with hv
  · exact .inl ⟨hv, rfl⟩
  · exact .inr ⟨Nat.pos_of_ne_zero hv, rfl⟩

/-- The state in which `release()` resumes the first waiter. -/
def State.wake (s : State) (byUser : Bool) (id : ℕ) (rest : List ℕ) (a : Awaiter) : State :=
  ({ s.record (.released byUser false) with parked := rest, depth := s.depth + 1 }.setAwaiter id
    { a with phase := .woken }).record (.woken id)

theorem release_cases {byUser : Bool} (hs : s.release byUser = .ok t) :
    s.parked = [] ∧ t = { s.record (.released byUser (s.value + 1 = 2 ^ 64)) with
      value := (s.value + 1) % 2 ^ 64 } ∨
    ∃ id rest a, s.parked = id :: rest ∧ s.awaiters.lookup id = some a ∧
      t = s.wake byUser id rest a := by
  unfold State.release at hs
  simp only [show ∀ e, (s.record e).parked = s.parked from fun _ => rfl,
    show ∀ e, (s.record e).awaiters = s.awaiters from fun _ => rfl] at hs
  cases hp : s.parked with
  | nil =>
    simp only [hp, true_and] at hs
    cases hs
    exact .inl ⟨rfl, by simp [State.record, hp]⟩
  | cons id rest =>
    simp only [hp] at hs
    cases ha : s.awaiters.lookup id with
    | none => simp [ha] at hs
    | some a =>
      simp only [ha, reduceCtorEq, false_and, decide_false] at hs
      cases hs
      exact .inr ⟨id, rest, a, rfl, ha, rfl⟩

theorem newAwaiter_cases (s : State) (r : Retval) :
    s.value = 0 ∧ s.newAwaiter r
      = { s.setAwaiter s.nextId ⟨r, false, .constructed⟩ with nextId := s.nextId + 1 } ∨
    0 < s.value ∧ s.newAwaiter r
      = ({ ({ s with value := s.value - 1 }.setAwaiter s.nextId ⟨r, true, .constructed⟩) with
          nextId := s.nextId + 1 }).record (.borrowed s.nextId) := by
  unfold State.newAwaiter
  rcases tryAcquire_cases s with ⟨hv, h⟩ | ⟨hv, h⟩
  · exact .inl ⟨hv, by rw [h]; rfl⟩
  · exact .inr ⟨hv, by rw [h]; rfl⟩

theorem awaitSuspend_cases (hs : s.awaitSuspend id a = .ok t) :
    a.phase = .constructed ∧ a.borrowed = false ∧
    (0 < s.value ∧ t = ({ s with value := s.value - 1 }.setAwaiter id
        { a with phase := .passed }).record (.passed id) ∨
      s.value = 0 ∧ t = ({ s.setAwaiter id { a with phase := .parked } with
        parked := s.parked ++ [id] }).record (.parked id)) := by
  unfold State.awaitSuspend at hs
  split_ifs at hs with hph hb
  refine ⟨not_not.1 hph, by simpa using hb, ?_⟩
  rcases tryAcquire_cases s with ⟨hv, h⟩ | ⟨hv, h⟩
  · rw [h] at hs
    cases hs
    exact .inr ⟨hv, rfl⟩
  · rw [h] at hs
    cases hs
    exact .inl ⟨hv, rfl⟩

/-- The state after `await_resume()`, up to the `Lock` that it returns. -/
def State.resumed (s : State) (id : ℕ) (a : Awaiter) : State :=
  if a.borrowed then
    (s.setAwaiter id { a with borrowed := false, phase := .done }).record (.consumed id)
  else s.setAwaiter id { a with borrowed := false, phase := .done }

theorem awaitResume_cases (hs : s.awaitResume id a = .ok t) :
    (a.phase = .woken ∨ a.phase = .passed ∨ a.phase = .constructed ∧ a.borrowed = true) ∧
    (t = s.resumed id a ∨ t = (s.resumed id a).addLock true) := by
  unfold State.awaitResume at hs
  split_ifs at hs with hph hb
  · refine ⟨hph, ?_⟩
    rw [State.resumed, if_pos hb]
    cases hr : a.retval <;> rw [hr] at hs <;> cases hs <;> simp
  · refine ⟨hph, ?_⟩
    rw [State.resumed, if_neg hb]
    cases hr : a.retval <;> rw [hr] at hs <;> cases hs <;> simp

theorem awaitCancel_cases (hs : s.awaitCancel id a = .ok t) :
    a.phase = .parked ∧ t = ({ s with parked := s.parked.erase id }.setAwaiter id
      { a with phase := .cancelled }).record (.withdrawn id) := by
  unfold State.awaitCancel at hs
  split_ifs at hs with hph
  cases hs
  exact ⟨not_not.1 hph, rfl⟩

/-- The state in which `~Awaiter()` gives back what has been borrowed. -/
def State.erased (s : State) (id : ℕ) (a : Awaiter) : State :=
  if a.phase = .parked then
    { s with awaiters := s.awaiters.erase id, parked := s.parked.erase id }.record (.withdrawn id)
  else { s with awaiters := s.awaiters.erase id, parked := s.parked.erase id }

theorem destroy_cases (hs : s.destroy id a = .ok t) :
    a.borrowed = false ∧ t = s.erased id a ∨
    a.borrowed = true ∧ (s.erased id a).release false = .ok t := by
  unfold State.destroy at hs
  unfold State.erased
  cases hb : a.borrowed with
  | false =>
    rw [hb] at hs
    cases hs
    exact .inl ⟨rfl, rfl⟩
  | true =>
    rw [hb] at hs
    exact .inr ⟨rfl, hs⟩

/-- The same state, up to its `Lock`s and to the calls in progress. -/
structure Alike (s t : State) : Prop where
  value : t.value = s.value
  parked : t.parked = s.parked
  awaiters : t.awaiters = s.awaiters
  nextId : t.nextId = s.nextId
  log : t.log = s.log

/-- What a `Lock` does: nothing to the units, or a release. -/
theorem destroyLock_cases {lk : ℕ} {held : Bool} (hs : s.destroyLock lk held = .ok t) :
    Alike s t ∨ ∃ s', Alike s s' ∧ s'.release true = .ok t := by
  unfold State.destroyLock at hs
  cases held with
  | false => cases hs; exact .inl ⟨rfl, rfl, rfl, rfl, rfl⟩
  | true => exact .inr ⟨{ s with locks := s.locks.erase lk }, ⟨rfl, rfl, rfl, rfl, rfl⟩, hs⟩

theorem assignLock_cases {dst src : ℕ} {held : Bool} (hs : s.assignLock dst src held = .ok t) :
    Alike s t ∨ ∃ s', Alike s s' ∧ s'.release true = .ok t := by
  unfold State.assignLock at hs
  cases hl : (s.moveLock src held).locks.lookup dst with
  | none => simp [hl] at hs
  | some old =>
    simp only [hl] at hs
    rcases destroyLock_cases hs with h | ⟨s', h, hs⟩
    · exact .inl ⟨h.value, h.parked, h.awaiters, h.nextId, h.log⟩
    · exact .inr ⟨s', ⟨h.value, h.parked, h.awaiters, h.nextId, h.log⟩, hs⟩

theorem withAwaiter_eq_ok {f : Awaiter → Except Fault State} (hs : s.withAwaiter id f = .ok t) :
    ∃ a, s.awaiters.lookup id = some a ∧ f a = .ok t := by
  unfold State.withAwaiter at hs
  cases ha : s.awaiters.lookup id with
  | none => simp [ha] at hs
  | some a => exact ⟨a, rfl, by simpa [ha] using hs⟩

theorem withLock_eq_ok {lk : ℕ} {f : Bool → Except Fault State} (hs : s.withLock lk f = .ok t) :
    ∃ held, s.locks.lookup lk = some held ∧ f held = .ok t := by
  unfold State.withLock at hs
  cases hl : s.locks.lookup lk with
  | none => simp [hl] at hs
  | some held => exact ⟨held, rfl, by simpa [hl] using hs⟩

/-- Everything that an action does, except for what a `Lock` is to the user. -/
inductive Does (s : State) : Action → State → Prop
  | newAwaiter (r : Retval) : Does s (.newAwaiter r) (s.newAwaiter r)
  | awaitSuspend {id : ℕ} {a : Awaiter} {t : State} : s.awaiters.lookup id = some a →
      s.awaitSuspend id a = .ok t → Does s (.awaitSuspend id) t
  | awaitResume {id : ℕ} {a : Awaiter} {t : State} : s.awaiters.lookup id = some a →
      s.awaitResume id a = .ok t → Does s (.awaitResume id) t
  | awaitCancel {id : ℕ} {a : Awaiter} {t : State} : s.awaiters.lookup id = some a →
      s.awaitCancel id a = .ok t → Does s (.awaitCancel id) t
  | destroy {id : ℕ} {a : Awaiter} {t : State} : s.awaiters.lookup id = some a →
      s.destroy id a = .ok t → Does s (.destroy id) t
  | tryAcquire : Does s .tryAcquire
      (if s.tryAcquire.1 then s.tryAcquire.2.record .acquired else s.tryAcquire.2)
  | release {act : Action} {s' t : State} : Alike s s' → s'.release true = .ok t → Does s act t
  | nothing {act : Action} {t : State} : Alike s t → Does s act t

theorem does_of_step {act : Action} (hs : step s act = .ok t) : Does s act t := by
  cases act with
  | newAwaiter r => cases hs; exact .newAwaiter r
  | awaitSuspend id =>
    obtain ⟨a, ha, hs⟩ := withAwaiter_eq_ok hs
    exact .awaitSuspend ha hs
  | awaitResume id =>
    obtain ⟨a, ha, hs⟩ := withAwaiter_eq_ok hs
    exact .awaitResume ha hs
  | awaitCancel id =>
    obtain ⟨a, ha, hs⟩ := withAwaiter_eq_ok hs
    exact .awaitCancel ha hs
  | destroy id =>
    obtain ⟨a, ha, hs⟩ := withAwaiter_eq_ok hs
    exact .destroy ha hs
  | tryAcquire => cases hs; exact .tryAcquire
  | release => exact .release ⟨rfl, rfl, rfl, rfl, rfl⟩ hs
  | newLock => cases hs; exact .nothing ⟨rfl, rfl, rfl, rfl, rfl⟩
  | moveLock lk =>
    obtain ⟨held, -, hs⟩ := withLock_eq_ok hs
    cases hs
    exact .nothing ⟨rfl, rfl, rfl, rfl, rfl⟩
  | assignLock dst src =>
    obtain ⟨held, -, hs⟩ := withLock_eq_ok hs
    rcases assignLock_cases hs with h | ⟨s', h, hs⟩
    · exact .nothing h
    · exact .release h hs
  | destroyLock lk =>
    obtain ⟨held, -, hs⟩ := withLock_eq_ok hs
    rcases destroyLock_cases hs with h | ⟨s', h, hs⟩
    · exact .nothing h
    · exact .release h hs
  | resumeReturns =>
    simp only [step] at hs
    split at hs
    · cases hs
    · cases hs
      exact .nothing ⟨rfl, rfl, rfl, rfl, rfl⟩

end Corral.Semaphore
