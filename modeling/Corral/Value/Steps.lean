import Corral.Value.Model

/-!
# `Value`: what a step can do

* `Does s act t`: the action `act` leads from `s` to `t`, with what it requires, one constructor for
  each outcome;
* `does_of_step`: every step is one of these;
* `Listed`: the awaiters that are suspended are those in the lists, in every run.
-/

namespace Corral.Value

open Registry ActionMachine WaitQueue

variable {T : Type*} {s t : State T} {id : ℕ} {a : Awaiter T}

inductive Does (s : State T) : Action T → State T → Prop
  | newAwaiter (k : Kind T) : Does s (.newAwaiter k) (s.newAwaiter k)
  | ready {id : ℕ} {a : Awaiter T} : s.awaiters.lookup id = some a → a.phase = .constructed →
      s.awaitReady a = true →
      Does s (.await id) ((s.setAwaiter id { a with phase := .ready }).record (.ready id))
  | suspended {id : ℕ} {a : Awaiter T} : s.awaiters.lookup id = some a → a.phase = .constructed →
      s.awaitReady a = false → Does s (.await id) (s.awaitSuspend id a)
  | yielded {id : ℕ} {a : Awaiter T} {r : Result T} : s.awaiters.lookup id = some a →
      a.phase = .ready ∨ a.phase = .resumed →
      (∃ fn, a.kind = .comparison fn ∧ r = .void) ∨
        (∀ fn, a.kind ≠ .comparison fn) ∧ a.result = some r →
      Does s (.awaitResume id) ((s.setAwaiter id { a with phase := .done }).record (.yielded id r))
  | cancelled {id : ℕ} {a : Awaiter T} : s.awaiters.lookup id = some a → a.phase = .suspended →
      Does s (.awaitCancel id) (({ s with lists := s.lists.unlink id }.setAwaiter id
        { a with phase := .cancelled }).record (.withdrawn id))
  | destroyed {id : ℕ} {a : Awaiter T} : s.awaiters.lookup id = some a →
      Does s (.destroy id) (s.destroy id a)
  | modified (fn : T → T) : Does s (.modify fn) (s.modify fn)
  | finished {b : Batch ℕ (Change T)} {bs : List (Batch ℕ (Change T))} :
      s.lists.batches = b :: bs → b.pending = [] →
      Does s .next { s with
        lists := { s.lists with batches := bs }
        looping := false
        finished := s.finished ++ [b] }
  | tested {b : Batch ℕ (Change T)} {bs : List (Batch ℕ (Change T))} {id : ℕ} {rest : List ℕ}
      {a : Awaiter T} : s.lists.batches = b :: bs → b.pending = id :: rest →
      s.awaiters.lookup id = some a →
      Does s .next ({ s with lists := { s.lists with batches := b.serve id rest :: bs } }.onChanged
        id a b.data)

theorem withAwaiter_eq_ok {f : Awaiter T → Except Fault (State T)}
    (hs : s.withAwaiter id f = .ok t) : ∃ a, s.awaiters.lookup id = some a ∧ f a = .ok t := by
  unfold State.withAwaiter at hs
  cases ha : s.awaiters.lookup id with
  | none => simp [ha] at hs
  | some a => exact ⟨a, rfl, by simpa [ha] using hs⟩

theorem does_of_next (hs : s.next = .ok t) : Does s .next t := by
  unfold State.next at hs
  cases hb : s.lists.batches with
  | nil => simp [hb] at hs
  | cons b bs =>
    simp only [hb] at hs
    cases hp : b.pending with
    | nil =>
      simp only [hp] at hs
      cases hs
      exact .finished hb hp
    | cons id rest =>
      simp only [hp] at hs
      cases ha : s.awaiters.lookup id with
      | none => simp [ha] at hs
      | some a =>
        simp only [ha] at hs
        cases hs
        exact .tested hb hp ha

theorem does_of_awaitResume (ha : s.awaiters.lookup id = some a)
    (hs : s.awaitResume id a = .ok t) : Does s (.awaitResume id) t := by
  obtain ⟨k, res, ph⟩ := a
  unfold State.awaitResume at hs
  split_ifs at hs with hph
  cases k with
  | comparison fn =>
    cases hs
    exact .yielded ha hph (.inl ⟨fn, rfl, rfl⟩)
  | untilMatches fn =>
    cases res with
    | none => cases hs
    | some r =>
      cases hs
      exact .yielded ha hph (.inr ⟨nofun, rfl⟩)
  | untilChanged fn =>
    cases res with
    | none => cases hs
    | some r =>
      cases hs
      exact .yielded ha hph (.inr ⟨nofun, rfl⟩)

theorem does_of_act {act : Action T} (hs : s.act act = .ok t) : Does s act t := by
  cases act with
  | newAwaiter k => cases hs; exact .newAwaiter k
  | await id =>
    obtain ⟨a, ha, hs⟩ := withAwaiter_eq_ok hs
    unfold State.await at hs
    split_ifs at hs with hph hr
    · cases hs
      exact .ready ha (not_not.1 hph) hr
    · cases hs
      exact .suspended ha (not_not.1 hph) (by simpa using hr)
  | awaitResume id =>
    obtain ⟨a, ha, hs⟩ := withAwaiter_eq_ok hs
    exact does_of_awaitResume ha hs
  | awaitCancel id =>
    obtain ⟨a, ha, hs⟩ := withAwaiter_eq_ok hs
    unfold State.awaitCancel at hs
    split_ifs at hs with hph
    cases hs
    exact .cancelled ha (not_not.1 hph)
  | destroy id =>
    obtain ⟨a, ha, hs⟩ := withAwaiter_eq_ok hs
    cases hs
    exact .destroyed ha
  | modify fn => cases hs; exact .modified fn
  | next => exact does_of_next hs

theorem does_of_step {act : Action T} (hs : step s act = .ok t) : Does s act t := by
  unfold step at hs
  cases hl : s.looping with
  | false =>
    simp only [hl] at hs
    exact does_of_act hs
  | true =>
    cases act <;> simp only [hl, reduceCtorEq] at hs
    exact does_of_next hs

/-! ### The lists -/

/-- The awaiters that are suspended are those in the lists. -/
structure Listed (s : State T) : Prop where
  enrolled : Enrolled s.lists s.awaiters fun a => a.phase = .suspended
  fresh : ∀ id, s.nextId ≤ id → s.awaiters.lookup id = none
  ended : ∀ b ∈ s.finished, b.Ordered ∧ b.pending = []

theorem listed_init (v : T) : Listed (State.init v) := ⟨.nil, fun _ _ => rfl, nofun⟩

theorem Listed.sound (h : Listed s) : s.lists.Sound := h.enrolled.sound

theorem Listed.lt_nextId (h : Listed s) (ha : s.awaiters.lookup id = some a) : id < s.nextId := by
  by_contra hlt
  rw [h.fresh id (by omega)] at ha
  cases ha

theorem Listed.mem_iff_phase (h : Listed s) (ha : s.awaiters.lookup id = some a) :
    id ∈ s.lists.all ↔ a.phase = .suspended := h.enrolled.mem_all_iff ha

/-- The record of a live awaiter is replaced. -/
theorem Listed.replace {b : Awaiter T} (h : Listed s) (ha : s.awaiters.lookup id = some a)
    (he : Enrolled t.lists (s.awaiters.insert id b) fun a => a.phase = .suspended)
    (hw : t.awaiters = s.awaiters.insert id b) (hn : t.nextId = s.nextId)
    (hf : t.finished = s.finished) : Listed t := by
  have hlt := h.lt_nextId ha
  refine ⟨by rw [hw]; exact he, fun k hk => ?_, by rw [hf]; exact h.ended⟩
  rw [hw, lookup_insert_eq, if_neg (by omega)]
  exact h.fresh k (by omega)

/-- An awaiter that is not in the lists stays out of them. -/
theorem Listed.stay {b : Awaiter T} (h : Listed s) (ha : s.awaiters.lookup id = some a)
    (hp : a.phase ≠ .suspended) (hb : b.phase ≠ .suspended) (hl : t.lists = s.lists)
    (hw : t.awaiters = s.awaiters.insert id b) (hn : t.nextId = s.nextId)
    (hf : t.finished = s.finished) : Listed t := by
  have hout : id ∉ s.lists.all := fun hm => hp ((h.mem_iff_phase ha).1 hm)
  exact h.replace ha (by rw [hl]; exact h.enrolled.stay hout hb) hw hn hf

theorem Listed.newAwaiter (h : Listed s) (k : Kind T) : Listed (s.newAwaiter k) := by
  have hout : s.nextId ∉ s.lists.all := by
    rw [h.enrolled.mem_iff, h.fresh _ le_rfl]
    simp
  refine ⟨h.enrolled.stay hout nofun, fun x hx => ?_, h.ended⟩
  have hx : s.nextId + 1 ≤ x := hx
  show (s.awaiters.insert s.nextId _).lookup x = none
  rw [lookup_insert_eq, if_neg (by omega)]
  exact h.fresh x (by omega)

theorem Listed.destroy (h : Listed s) (id : ℕ) (a : Awaiter T) : Listed (s.destroy id a) := by
  have ht : Listed { s with lists := s.lists.unlink id, awaiters := s.awaiters.erase id } := by
    refine ⟨h.enrolled.erase id, fun x hx => ?_, h.ended⟩
    rw [lookup_erase_eq]
    split_ifs
    · rfl
    · exact h.fresh x hx
  unfold State.destroy
  by_cases hp : a.phase = .suspended
  · rw [if_pos hp]
    exact ⟨ht.enrolled, ht.fresh, ht.ended⟩
  · rw [if_neg hp]
    exact ht

/-- The step lemma. -/
theorem Listed.step {act : Action T} (h : Listed s) (hs : step s act = .ok t) : Listed t := by
  cases does_of_step hs with
  | newAwaiter k => exact h.newAwaiter k
  | @ready id a ha hp hr =>
    exact h.stay (b := { a with phase := .ready }) ha (by rw [hp]; nofun) nofun rfl rfl rfl rfl
  | @suspended id a ha hp hr =>
    have hout : id ∉ s.lists.all := by
      rw [h.mem_iff_phase ha, hp]
      nofun
    exact h.replace ha (h.enrolled.put hout rfl) rfl rfl rfl
  | @yielded id a r ha hp hr =>
    refine h.stay (b := { a with phase := .done }) ha ?_ nofun rfl rfl rfl rfl
    rcases hp with hp | hp
    · rw [hp]; nofun
    · rw [hp]; nofun
  | cancelled ha hp => exact h.replace ha (h.enrolled.unlink (by simp)) rfl rfl rfl
  | destroyed ha => exact h.destroy _ _
  | modified fn =>
    exact ⟨h.enrolled.relist (h.sound.start _) fun x => mem_start _, h.fresh, h.ended⟩
  | @finished b bs hb hp =>
    refine ⟨h.enrolled.relist (h.sound.finish hb hp) fun x => mem_finish hb hp, h.fresh,
      fun c hc => ?_⟩
    rcases List.mem_append.1 hc with hc | hc
    · exact h.ended c hc
    · rw [List.mem_singleton.1 hc]
      exact ⟨h.sound.ordered b (hb ▸ List.mem_cons_self), hp⟩
  | tested hb hp ha =>
    unfold State.onChanged
    split_ifs
    · exact h.replace ha (h.enrolled.serve hb hp (by simp)) rfl rfl rfl
    · exact ⟨h.enrolled.reput hb hp, h.fresh, h.ended⟩

theorem listed_of_reach {v : T} {ok : State T → Action T → Prop}
    (h : Reach step ok (State.init v) s) : Listed s :=
  h.invariant (listed_init v) fun _ _ _ hl _ hs => hl.step hs

end Corral.Value
