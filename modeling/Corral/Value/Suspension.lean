import Corral.Value.Course

/-!
# `Value`: what an awaiter is suspended on

`until()` tests the value when it is awaited, `untilMatches()` when it is constructed.

* `Steady`: an `untilMatches()` that is awaited while its predicate holds was constructed while it held;
* `steady_iff`: a step is steady if and only if it does not suspend an awaiter whose predicate holds;
* `meets_steady_iff`: the same of a run.
-/

namespace Corral.Value

open Registry ActionMachine WaitQueue

variable {T : Type*} {s t : State T} {id : ℕ} {a : Awaiter T}

/-- An `untilMatches()` whose predicate did not hold when it was constructed is not awaited while its
predicate holds. -/
def Steady (s : State T) : Action T → Prop
  | .await id => ∀ fn v, .constructed id (.untilMatches fn) v ∈ s.log → fn s.value = true → fn v = true
  | _ => True

/-- An awaiter that is ready was constructed while its predicate held. -/
theorem steady_of_ready (h : Traced s) (ha : s.awaiters.lookup id = some a)
    (hp : a.phase = .constructed) (hr : s.awaitReady a = true) : Steady s (.await id) := by
  intro fn v hm _
  obtain ⟨hk, hs⟩ := h.story id _ v hm a ha
  have hres := (hs.of_constructed hp).1
  rw [State.awaitReady, hk] at hr
  by_contra hfn
  simp [hres, Kind.initial, hfn] at hr

/-- An awaiter that is not ready is suspended; it has not matched when it was constructed. -/
theorem steady_of_not_ready (h : Traced s) (ha : s.awaiters.lookup id = some a)
    (hp : a.phase = .constructed) (hr : s.awaitReady a = false) :
    Steady s (.await id) ↔ a.kind.holds s.value = false := by
  obtain ⟨v₀, hv₀⟩ := h.born id a ha
  have hres := ((h.story id _ v₀ hv₀ a ha).2.of_constructed hp).1
  cases hk : a.kind with
  | untilMatches fn =>
    have hfn : fn v₀ = false := by
      rw [State.awaitReady, hk, hres] at hr
      by_contra hfn
      simp [hk, Kind.initial, hfn] at hr
    constructor
    · intro hst
      by_contra hfn'
      have := hst fn v₀ (hk ▸ hv₀) (by simpa [Kind.holds] using hfn')
      rw [hfn] at this
      cases this
    · intro hno fn' v hm hyes
      have hk' := (h.story id _ v hm a ha).1
      rw [hk] at hk'
      cases hk'
      rw [show fn s.value = false from hno] at hyes
      cases hyes
  | comparison fn =>
    rw [State.awaitReady, hk] at hr
    refine ⟨fun _ => hr, fun _ fn' v hm => ?_⟩
    have hk' := (h.story id _ v hm a ha).1
    rw [hk] at hk'
    cases hk'
  | untilChanged fn =>
    refine ⟨fun _ => rfl, fun _ fn' v hm => ?_⟩
    have hk' := (h.story id _ v hm a ha).1
    rw [hk] at hk'
    cases hk'

/-- The step lemma. -/
theorem steady_iff {act : Action T} (h : Traced s) (hs : step s act = .ok t) :
    ∃ l, t.log = s.log ++ l ∧ (Steady s act ↔ ∀ id, .suspended id true ∉ l) := by
  cases does_of_step hs with
  | newAwaiter k => exact ⟨_, rfl, by simp [Steady]⟩
  | ready ha hp hr =>
    refine ⟨_, rfl, fun _ => by simp, fun _ => steady_of_ready h ha hp hr⟩
  | suspended ha hp hr =>
    refine ⟨_, rfl, (steady_of_not_ready h ha hp hr).trans ?_⟩
    simp
  | yielded ha hp hr => exact ⟨_, rfl, by simp [Steady]⟩
  | cancelled ha hp => exact ⟨_, rfl, by simp [Steady]⟩
  | @destroyed id a ha =>
    unfold State.destroy
    split_ifs
    · exact ⟨_, rfl, by simp [Steady]⟩
    · exact ⟨[], by simp, by simp [Steady]⟩
  | modified fn => exact ⟨[], by simp [State.modify], by simp [Steady]⟩
  | finished hb hp => exact ⟨[], by simp, by simp [Steady]⟩
  | tested hb hp ha =>
    unfold State.onChanged
    split_ifs
    · exact ⟨_, rfl, by simp [Steady]⟩
    · exact ⟨_, rfl, by simp [Steady]⟩

/-- The run lemma, from any reached state. -/
theorem meets_steady_of_reach {v : T} {as : List (Action T)}
    (h : Reach step anyAction (State.init v) s) (hs : exec step s as = .ok t) :
    ∃ l, t.log = s.log ++ l ∧ (Meets step Steady s as ↔ ∀ id, .suspended id true ∉ l) := by
  induction as generalizing s with
  | nil =>
    cases hs
    exact ⟨[], by simp, by simp [Meets]⟩
  | cons act as ih =>
    obtain ⟨u, hu, hrun⟩ := exec_cons_eq_ok hs
    obtain ⟨l₁, hl₁, hfirst⟩ := steady_iff (traced_of_reach h) hu
    obtain ⟨l₂, hl₂, hrest⟩ := ih (h.tail trivial hu) hrun
    refine ⟨l₁ ++ l₂, by rw [hl₂, hl₁, List.append_assoc], ?_⟩
    rw [meets_cons hu, hfirst, hrest, ← forall_and]
    simp only [List.mem_append, not_or]

/-- No awaiter is suspended on a predicate that holds for the value stored at that moment, if and only
if every step of the run is steady. -/
theorem meets_steady_iff (v : T) (as : List (Action T)) {s : State T}
    (h : exec step (State.init v) as = .ok s) :
    Meets step Steady (State.init v) as ↔ ∀ id, .suspended id true ∉ s.log := by
  obtain ⟨l, hl, hiff⟩ := meets_steady_of_reach .refl h
  rw [hiff, hl]
  rfl

/-- The value is 1 when the awaiter is constructed, 0 when it is awaited, and 1 later. -/
theorem meets_steady_iff_later : ∃ s, exec step (State.init 0)
      [.newAwaiter (untilEquals 1), .await 0, .set 1, .next] = .ok s ∧
    (Meets step Steady (State.init 0) [.newAwaiter (untilEquals 1), .await 0, .set 1, .next] ↔
      ∀ id, .suspended id true ∉ s.log) :=
  ⟨_, rfl, meets_steady_iff 0 _ rfl⟩

/-- The value changes between the construction of an awaiter and its `await_suspend()`. -/
theorem not_meets_steady : ¬ ∀ (v : ℕ) (as : List (Action ℕ)) (s : State ℕ),
    exec step (State.init v) as = .ok s → ∀ id, .suspended id true ∉ s.log := by
  intro h
  refine h 0 [.newAwaiter (untilEquals 1), .set 1, .next, .await 0] _ rfl 0 ?_
  exact List.mem_append_right _ (List.mem_singleton_self (Event.suspended 0 true))

end Corral.Value
