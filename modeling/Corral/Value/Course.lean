import Corral.Value.Steps

/-!
# `Value`: the course of an awaiter

* `testsOf log id`: the tests of an awaiter so far;
* `Course`: every test but the last has failed, whoever has withdrawn has never matched, and what an
  awaiter yields is what its last test has captured;
* `Story`: the same of a live awaiter, by its phase;
* `traced_of_reach`: so it is in every run.
-/

namespace Corral.Value

open Registry ActionMachine WaitQueue

variable {T : Type*}

def Event.id : Event T → ℕ
  | .constructed id _ _ => id
  | .ready id => id
  | .suspended id _ => id
  | .tested t => t.id
  | .withdrawn id => id
  | .yielded id _ => id

def Event.test? (id : ℕ) : Event T → Option (Test T)
  | .tested t => if t.id = id then some t else none
  | _ => none

/-- The tests of an awaiter. -/
def testsOf (log : List (Event T)) (id : ℕ) : List (Test T) := log.filterMap (Event.test? id)

/-- What an awaiter yields that has not been suspended. -/
def Kind.atOnce : Kind T → T → Option (Result T)
  | .comparison _, _ => some .void
  | k, built => k.initial built

/-- The course of an awaiter of kind `k` that was constructed when the value was `built`. -/
structure Course (log : List (Event T)) (id : ℕ) (k : Kind T) (built : T) : Prop where
  judged : ∀ x ∈ testsOf log id, x.matched = k.test x.prev x.value
  first : ∀ x ∈ (testsOf log id).dropLast, x.matched = false
  withdrew : .withdrawn id ∈ log → ∀ x ∈ testsOf log id, x.matched = false
  yielded : ∀ r, .yielded id r ∈ log → testsOf log id = [] ∧ k.atOnce built = some r ∨
    ∃ x, (testsOf log id).getLast? = some x ∧ x.matched = true ∧ r = k.yields x.prev x.value

/-- Where a live awaiter can stand, with what result stored and after which tests. -/
inductive Story (k : Kind T) (built : T) : Phase → Option (Result T) → List (Test T) → Prop
  | fresh : Story k built .constructed (k.initial built) []
  | ready : (k.atOnce built).isSome → Story k built .ready (k.initial built) []
  | waiting {l : List (Test T)} : k.initial built = none → (∀ x ∈ l, x.matched = false) →
      Story k built .suspended none l
  | resumed {l : List (Test T)} {x : Test T} : (∀ y ∈ l, y.matched = false) → x.matched = true →
      Story k built .resumed (k.captures x.prev x.value) (l ++ [x])
  | cancelled {l : List (Test T)} : (∀ x ∈ l, x.matched = false) → Story k built .cancelled none l
  | done {res : Option (Result T)} {l : List (Test T)} : Story k built .done res l

/-- The courses of the awaiters, and the stories of those that live. -/
structure Traced (s : State T) : Prop where
  known : ∀ e ∈ s.log, e.id < s.nextId
  born : ∀ id a, s.awaiters.lookup id = some a → ∃ v, .constructed id a.kind v ∈ s.log
  course : ∀ id k v, .constructed id k v ∈ s.log → Course s.log id k v
  story : ∀ id k v, .constructed id k v ∈ s.log → ∀ a, s.awaiters.lookup id = some a →
    a.kind = k ∧ Story k v a.phase a.result (testsOf s.log id)
  kept : ∀ id a, s.awaiters.lookup id = some a → a.phase ≠ .cancelled → .withdrawn id ∉ s.log
  silent : ∀ id a, s.awaiters.lookup id = some a → a.phase ≠ .done → ∀ r, .yielded id r ∉ s.log
  unsuspended : ∀ id a, s.awaiters.lookup id = some a → a.phase = .constructed →
    ∀ m, .suspended id m ∉ s.log

variable {s t : State T} {id : ℕ} {a : Awaiter T} {log : List (Event T)} {e : Event T} {k : Kind T}
  {v : T}

theorem testsOf_append (log : List (Event T)) (e : Event T) (id : ℕ) :
    testsOf (log ++ [e]) id = testsOf log id ++ (e.test? id).toList := by
  simp only [testsOf, List.filterMap_append, List.filterMap_cons, List.filterMap_nil]
  cases e.test? id <;> rfl

theorem test?_of_ne (h : e.id ≠ id) : e.test? id = none := by
  cases e <;> simp_all [Event.test?, Event.id]

theorem testsOf_note (log : List (Event T)) (h : e.test? id = none) :
    testsOf (log ++ [e]) id = testsOf log id := by
  rw [testsOf_append, h, Option.toList_none, List.append_nil]

theorem testsOf_of_ne (log : List (Event T)) (h : e.id ≠ id) :
    testsOf (log ++ [e]) id = testsOf log id :=
  testsOf_note log (test?_of_ne h)

/-- The events of the other awaiters do not matter. -/
theorem Course.of_ne (h : Course log id k v) (hne : e.id ≠ id) : Course (log ++ [e]) id k v := by
  have hold : ∀ e', e'.id = id → e' ∈ log ++ [e] → e' ∈ log := by
    intro e' he' hm
    rcases List.mem_append.1 hm with hm | hm
    · exact hm
    · rw [List.mem_singleton.1 hm] at he'
      exact absurd he' hne
  have ht := testsOf_of_ne log hne
  refine ⟨?_, ?_, fun hw => ?_, fun r hr => ?_⟩
  · rw [ht]; exact h.judged
  · rw [ht]; exact h.first
  · rw [ht]; exact h.withdrew (hold _ rfl hw)
  · rw [ht]; exact h.yielded r (hold _ rfl hr)

/-- An event that is neither a test nor the end of an awaiter. -/
theorem Course.note (h : Course log id k v) (ht : e.test? id = none) (hw : e ≠ .withdrawn id)
    (hy : ∀ r, e ≠ .yielded id r) : Course (log ++ [e]) id k v := by
  have hold : ∀ e', e ≠ e' → e' ∈ log ++ [e] → e' ∈ log := by
    intro e' hne hm
    rcases List.mem_append.1 hm with hm | hm
    · exact hm
    · exact absurd (List.mem_singleton.1 hm).symm hne
  have ht := testsOf_note log ht
  refine ⟨?_, ?_, fun hm => ?_, fun r hr => ?_⟩
  · rw [ht]; exact h.judged
  · rw [ht]; exact h.first
  · rw [ht]; exact h.withdrew (hold _ hw hm)
  · rw [ht]; exact h.yielded r (hold _ (hy r) hr)

/-- A test of an awaiter that has not matched before, not withdrawn, and not yielded anything. -/
theorem Course.test (h : Course log id k v) {x : Test T} (hid : x.id = id)
    (hx : x.matched = k.test x.prev x.value) (hfail : ∀ y ∈ testsOf log id, y.matched = false)
    (hw : .withdrawn id ∉ log) (hy : ∀ r, .yielded id r ∉ log) :
    Course (log ++ [.tested x]) id k v := by
  have ht : testsOf (log ++ [.tested x]) id = testsOf log id ++ [x] := by
    rw [testsOf_append, Event.test?, if_pos hid, Option.toList_some]
  refine ⟨?_, ?_, fun hm => ?_, fun r hr => ?_⟩
  · rw [ht]
    intro y hy
    rcases List.mem_append.1 hy with hy | hy
    · exact h.judged y hy
    · rwa [List.mem_singleton.1 hy]
  · rw [ht, List.dropLast_concat]
    exact hfail
  · simp only [List.mem_append, List.mem_singleton, reduceCtorEq, or_false] at hm
    exact absurd hm hw
  · simp only [List.mem_append, List.mem_singleton, reduceCtorEq, or_false] at hr
    exact absurd hr (hy r)

/-- What is yielded is what the last test has captured. -/
theorem Course.yield (h : Course log id k v) {r : Result T}
    (hr : testsOf log id = [] ∧ k.atOnce v = some r ∨
      ∃ x, (testsOf log id).getLast? = some x ∧ x.matched = true ∧ r = k.yields x.prev x.value) :
    Course (log ++ [.yielded id r]) id k v := by
  have ht : testsOf (log ++ [.yielded id r]) id = testsOf log id := testsOf_note log rfl
  refine ⟨?_, ?_, fun hm => ?_, fun r' hr' => ?_⟩
  · rw [ht]; exact h.judged
  · rw [ht]; exact h.first
  · rw [ht]
    simp only [List.mem_append, List.mem_singleton, reduceCtorEq, or_false] at hm
    exact h.withdrew hm
  · rw [ht]
    rcases List.mem_append.1 hr' with hr' | hr'
    · exact h.yielded r' hr'
    · cases List.mem_singleton.1 hr'
      exact hr

/-- An awaiter that has never matched is withdrawn. -/
theorem Course.withdraw (h : Course log id k v) (hfail : ∀ x ∈ testsOf log id, x.matched = false) :
    Course (log ++ [.withdrawn id]) id k v := by
  have ht : testsOf (log ++ [.withdrawn id]) id = testsOf log id := testsOf_note log rfl
  refine ⟨?_, ?_, fun _ => ?_, fun r hr => ?_⟩
  · rw [ht]; exact h.judged
  · rw [ht]; exact h.first
  · rw [ht]; exact hfail
  · rw [ht]
    simp only [List.mem_append, List.mem_singleton, reduceCtorEq, or_false] at hr
    exact h.yielded r hr

/-! What a phase says. -/

section Story

variable {ph : Phase} {res : Option (Result T)} {l : List (Test T)}

theorem Story.of_constructed (h : Story k v ph res l) (hp : ph = .constructed) :
    res = k.initial v ∧ l = [] := by
  cases h with
  | fresh => exact ⟨rfl, rfl⟩
  | _ => cases hp

theorem Story.of_ready (h : Story k v ph res l) (hp : ph = .ready) :
    (k.atOnce v).isSome ∧ res = k.initial v ∧ l = [] := by
  cases h with
  | ready hs => exact ⟨hs, rfl, rfl⟩
  | _ => cases hp

theorem Story.of_suspended (h : Story k v ph res l) (hp : ph = .suspended) :
    k.initial v = none ∧ res = none ∧ ∀ x ∈ l, x.matched = false := by
  cases h with
  | waiting hk hl => exact ⟨hk, rfl, hl⟩
  | _ => cases hp

theorem Story.of_resumed (h : Story k v ph res l) (hp : ph = .resumed) :
    ∃ l' x, l = l' ++ [x] ∧ x.matched = true ∧ res = k.captures x.prev x.value := by
  cases h with
  | resumed hl hx => exact ⟨_, _, rfl, hx, rfl⟩
  | _ => cases hp

/-- What an awaiter yields: its predicate held at once, or its last test has matched. -/
theorem Story.yields {r : Result T} (h : Story k v ph res l) (hp : ph = .ready ∨ ph = .resumed)
    (hr : (∃ fn, k = .comparison fn ∧ r = .void) ∨ (∀ fn, k ≠ .comparison fn) ∧ res = some r) :
    l = [] ∧ k.atOnce v = some r ∨
      ∃ x, l.getLast? = some x ∧ x.matched = true ∧ r = k.yields x.prev x.value := by
  rcases hp with hp | hp
  · obtain ⟨-, hres, hl⟩ := h.of_ready hp
    refine .inl ⟨hl, ?_⟩
    rcases hr with ⟨fn, rfl, rfl⟩ | ⟨hk, hr⟩
    · rfl
    · rw [← hr, hres]
      cases k with
      | comparison fn => exact absurd rfl (hk fn)
      | untilMatches fn => rfl
      | untilChanged fn => rfl
  · obtain ⟨l', x, hl, hx, hres⟩ := h.of_resumed hp
    refine .inr ⟨x, by rw [hl, List.getLast?_concat], hx, ?_⟩
    rcases hr with ⟨fn, rfl, rfl⟩ | ⟨hk, hr⟩
    · rfl
    · cases k with
      | comparison fn => exact absurd rfl (hk fn)
      | untilMatches fn => simpa [hr, Kind.captures] using hres
      | untilChanged fn => simpa [hr, Kind.captures] using hres

end Story

/-- An awaiter that is not ready has nothing stored; one that is yields something at once. -/
theorem awaitReady_eq (h : a.result = a.kind.initial v) :
    (s.awaitReady a = false → a.kind.initial v = none) ∧
    (s.awaitReady a = true → (a.kind.atOnce v).isSome) := by
  unfold State.awaitReady
  cases hk : a.kind with
  | untilMatches fn =>
    rw [hk] at h
    simp only [h]
    exact ⟨by simp, id⟩
  | comparison fn => exact ⟨fun _ => rfl, fun _ => rfl⟩
  | untilChanged fn => exact ⟨fun _ => rfl, nofun⟩

/-! ### Steps -/

theorem traced_init (v : T) : Traced (State.init v) :=
  ⟨nofun, nofun, nofun, nofun, nofun, nofun, nofun⟩

theorem mem_of_ne {log : List (Event T)} {e e' : Event T} (h : e' ∈ log ++ [e]) (hne : e ≠ e') :
    e' ∈ log := by
  rcases List.mem_append.1 h with h | h
  · exact h
  · exact absurd (List.mem_singleton.1 h).symm hne

/-- What is left of a live awaiter after an event. -/
structure Follows (log : List (Event T)) (id : ℕ) (k : Kind T) (v : T) (b : Awaiter T) : Prop where
  kind : b.kind = k
  story : Story k v b.phase b.result (testsOf log id)
  kept : b.phase ≠ .cancelled → .withdrawn id ∉ log
  silent : b.phase ≠ .done → ∀ r, .yielded id r ∉ log
  unsuspended : b.phase = .constructed → ∀ m, .suspended id m ∉ log

/-- Something happens to a live awaiter, and its record is replaced by `b`, or erased. -/
theorem Traced.advance {b : Option (Awaiter T)} (h : Traced s) (hlt : id < s.nextId)
    (ha : s.awaiters.lookup id = some a)
    (hw : ∀ x, t.awaiters.lookup x = if x = id then b else s.awaiters.lookup x)
    (hn : t.nextId = s.nextId) (hl : t.log = s.log ++ [e]) (he : e.id = id)
    (hc : ∀ i k v, e ≠ .constructed i k v)
    (hstep : ∀ v, Course s.log id a.kind v → Follows s.log id a.kind v a →
      Course (s.log ++ [e]) id a.kind v ∧ ∀ c ∈ b, Follows (s.log ++ [e]) id a.kind v c) :
    Traced t := by
  have hother : ∀ i, i ≠ id → ∀ e', e'.id = i → e ≠ e' := by
    rintro i hi e' he' rfl
    exact hi (he'.symm.trans he)
  have hfollows : ∀ v, .constructed id a.kind v ∈ s.log → Follows s.log id a.kind v a :=
    fun v hv => ⟨rfl, (h.story id _ v hv a ha).2, h.kept id a ha, h.silent id a ha,
      h.unsuspended id a ha⟩
  obtain ⟨v₀, hv₀⟩ := h.born id a ha
  have hafter := (hstep v₀ (h.course id _ v₀ hv₀) (hfollows v₀ hv₀)).2
  refine ⟨?_, ?_, ?_, ?_, ?_, ?_, ?_⟩
  · intro e' he'
    rw [hl] at he'
    rw [hn]
    rcases List.mem_append.1 he' with he' | he'
    · exact h.known e' he'
    · rw [List.mem_singleton.1 he', he]
      exact hlt
  · intro i c hi
    rw [hw] at hi
    rw [hl]
    split_ifs at hi with heq
    · exact ⟨v₀, by rw [(hafter c hi).kind, heq]; exact List.mem_append_left _ hv₀⟩
    · obtain ⟨v, hv⟩ := h.born i c hi
      exact ⟨v, List.mem_append_left _ hv⟩
  · intro i k v hm
    rw [hl] at hm ⊢
    have hm := mem_of_ne hm (hc i k v)
    by_cases heq : i = id
    · subst heq
      obtain ⟨rfl, -⟩ := h.story i k v hm a ha
      exact (hstep v (h.course i _ v hm) (hfollows v hm)).1
    · exact (h.course i k v hm).of_ne fun hid => heq (hid ▸ he)
  · intro i k v hm c hi
    rw [hl] at hm ⊢
    rw [hw] at hi
    have hm := mem_of_ne hm (hc i k v)
    split_ifs at hi with heq
    · subst heq
      obtain ⟨rfl, -⟩ := h.story i k v hm a ha
      have hf := (hstep v (h.course i _ v hm) (hfollows v hm)).2 c hi
      exact ⟨hf.kind, hf.story⟩
    · rw [testsOf_of_ne _ fun hid : e.id = i => heq (hid.symm.trans he)]
      exact h.story i k v hm c hi
  · intro i c hi hph
    rw [hw] at hi
    rw [hl]
    split_ifs at hi with heq
    · rw [heq]
      exact (hafter c hi).kept hph
    · exact fun hm => h.kept i c hi hph (mem_of_ne hm (hother i heq _ rfl))
  · intro i c hi hph r
    rw [hw] at hi
    rw [hl]
    split_ifs at hi with heq
    · rw [heq]
      exact (hafter c hi).silent hph r
    · exact fun hm => h.silent i c hi hph r (mem_of_ne hm (hother i heq _ rfl))
  · intro i c hi hph m
    rw [hw] at hi
    rw [hl]
    split_ifs at hi with heq
    · rw [heq]
      exact (hafter c hi).unsuspended hph m
    · exact fun hm => h.unsuspended i c hi hph m (mem_of_ne hm (hother i heq _ rfl))

/-- What the traces are about. -/
theorem Traced.congr (h : Traced s) (hw : t.awaiters = s.awaiters) (hn : t.nextId = s.nextId)
    (hl : t.log = s.log) : Traced t := by
  obtain ⟨h₁, h₂, h₃, h₄, h₅, h₆, h₇⟩ := h
  exact ⟨by rwa [hl, hn], by rwa [hw, hl], by rwa [hl], by rwa [hw, hl], by rwa [hw, hl],
    by rwa [hw, hl], by rwa [hw, hl]⟩

/-- An event that is neither a withdrawal nor a yield leaves none of these behind. -/
theorem Follows.of_note {b : Awaiter T} (h : Follows log id k v a) (hw : e ≠ .withdrawn id)
    (hy : ∀ r, e ≠ .yielded id r) (hk : b.kind = a.kind)
    (hs : Story k v b.phase b.result (testsOf (log ++ [e]) id))
    (hc : a.phase ≠ .cancelled) (hd : a.phase ≠ .done) (hb : b.phase ≠ .constructed) :
    Follows (log ++ [e]) id k v b :=
  ⟨hk.trans h.kind, hs, fun _ hm => h.kept hc (mem_of_ne hm hw),
    fun _ r hm => h.silent hd r (mem_of_ne hm (hy r)), fun hp => absurd hp hb⟩

theorem Traced.newAwaiter (h : Traced s) (hl : Listed s) (k : Kind T) :
    Traced (s.newAwaiter k) := by
  have hnew : ∀ e ∈ s.log, e.id ≠ s.nextId := fun e he => (h.known e he).ne
  have hnone : s.awaiters.lookup s.nextId = none := hl.fresh _ le_rfl
  have hlook : ∀ x, (s.newAwaiter k).awaiters.lookup x
      = if x = s.nextId then some ⟨k, k.initial s.value, .constructed⟩ else s.awaiters.lookup x :=
    fun x => lookup_insert_eq _ _ _ _
  have htests : testsOf (s.newAwaiter k).log s.nextId = [] := by
    refine (testsOf_note _ rfl).trans (List.filterMap_eq_nil_iff.2 fun e he => ?_)
    exact test?_of_ne (hnew e he)
  refine ⟨?_, ?_, ?_, ?_, ?_, ?_, ?_⟩
  · intro e he
    rcases List.mem_append.1 he with he | he
    · exact (h.known e he).trans (Nat.lt_succ_self _)
    · rw [List.mem_singleton.1 he]
      exact Nat.lt_succ_self _
  · intro i c hi
    rw [hlook] at hi
    split_ifs at hi with heq
    · cases hi
      exact ⟨s.value, by rw [heq]; exact List.mem_append_right _ (List.mem_singleton_self _)⟩
    · obtain ⟨v, hv⟩ := h.born i c hi
      exact ⟨v, List.mem_append_left _ hv⟩
  · intro i k' v hm
    rcases List.mem_append.1 hm with hm | hm
    · exact (h.course i k' v hm).of_ne (hnew _ hm).symm
    · cases List.mem_singleton.1 hm
      refine ⟨by rw [htests]; nofun, by rw [htests]; nofun, fun _ => by rw [htests]; nofun, fun r hr => ?_⟩
      exact absurd rfl (hnew _ (mem_of_ne hr nofun))
  · intro i k' v hm c hi
    rw [hlook] at hi
    rcases List.mem_append.1 hm with hm | hm
    · have hne : i ≠ s.nextId := hnew _ hm
      rw [if_neg hne] at hi
      have ht : testsOf (s.newAwaiter k).log i = testsOf s.log i := testsOf_of_ne _ hne.symm
      rw [ht]
      exact h.story i k' v hm c hi
    · cases List.mem_singleton.1 hm
      rw [if_pos rfl] at hi
      cases hi
      rw [htests]
      exact ⟨rfl, .fresh⟩
  · intro i c hi hph hm
    have hm := mem_of_ne hm nofun
    have hne : i ≠ s.nextId := hnew _ hm
    rw [hlook, if_neg hne] at hi
    exact h.kept i c hi hph hm
  · intro i c hi hph r hm
    have hm := mem_of_ne hm nofun
    have hne : i ≠ s.nextId := hnew _ hm
    rw [hlook, if_neg hne] at hi
    exact h.silent i c hi hph r hm
  · intro i c hi hph m hm
    have hm := mem_of_ne hm nofun
    have hne : i ≠ s.nextId := hnew _ hm
    rw [hlook, if_neg hne] at hi
    exact h.unsuspended i c hi hph m hm

/-- An awaiter is destroyed. -/
theorem Traced.destroy (h : Traced s) (hl : Listed s) (ha : s.awaiters.lookup id = some a) :
    Traced (s.destroy id a) := by
  unfold State.destroy
  by_cases hp : a.phase = .suspended
  · rw [if_pos hp]
    exact h.advance (b := none) (hl.lt_nextId ha) ha (fun x => lookup_erase_eq _ _ _) rfl rfl rfl
      nofun fun v hcv hf => ⟨hcv.withdraw (hf.story.of_suspended hp).2.2, nofun⟩
  · rw [if_neg hp]
    obtain ⟨h₁, h₂, h₃, h₄, h₅, h₆, h₇⟩ := h
    exact ⟨h₁, fun i c hi => h₂ i c (lookup_of_lookup_erase hi), h₃,
      fun i k v hm c hi => h₄ i k v hm c (lookup_of_lookup_erase hi),
      fun i c hi => h₅ i c (lookup_of_lookup_erase hi),
      fun i c hi => h₆ i c (lookup_of_lookup_erase hi),
      fun i c hi => h₇ i c (lookup_of_lookup_erase hi)⟩

/-- An awaiter is tested. -/
theorem Traced.onChanged (h : Traced s) (hlt : id < s.nextId) (ha : s.awaiters.lookup id = some a)
    (hp : a.phase = .suspended) (c : Change T) : Traced (s.onChanged id a c) := by
  have hcan : a.phase ≠ .cancelled := by rw [hp]; nofun
  have hdone : a.phase ≠ .done := by rw [hp]; nofun
  have hlog : ∀ m, testsOf (s.log ++ [.tested ⟨id, c.prev, c.value, m⟩]) id
      = testsOf s.log id ++ [⟨id, c.prev, c.value, m⟩] := by
    intro m
    rw [testsOf_append, Event.test?, if_pos rfl, Option.toList_some]
  unfold State.onChanged
  split_ifs with hm
  · refine h.advance (b := some { a with result := a.kind.captures c.prev c.value, phase := .resumed })
      hlt ha (fun x => lookup_insert_eq _ _ _ _) rfl rfl rfl nofun fun v hcv hf => ?_
    obtain ⟨-, -, hfail⟩ := hf.story.of_suspended hp
    refine ⟨hcv.test rfl hm.symm hfail (hf.kept hcan) (hf.silent hdone), ?_⟩
    rintro c' ⟨⟩
    refine hf.of_note nofun nofun rfl ?_ hcan hdone nofun
    rw [hlog]
    exact .resumed (x := ⟨id, c.prev, c.value, true⟩) hfail rfl
  · refine h.advance (b := some a) hlt ha (fun x => ?_) rfl rfl rfl nofun
      fun v hcv hf => ?_
    · show s.awaiters.lookup x = _
      split_ifs with hx
      · rw [hx, ha]
      · rfl
    · obtain ⟨hk, hres, hfail⟩ := hf.story.of_suspended hp
      refine ⟨hcv.test rfl (by simpa using hm) hfail (hf.kept hcan) (hf.silent hdone), ?_⟩
      rintro c' ⟨⟩
      refine hf.of_note nofun nofun rfl ?_ hcan hdone (by rw [hp]; nofun)
      rw [hlog, hp, hres]
      refine .waiting hk fun x hx => ?_
      rcases List.mem_append.1 hx with hx | hx
      · exact hfail x hx
      · rw [List.mem_singleton.1 hx]

/-- The step lemma. -/
theorem Traced.step {act : Action T} (h : Traced s) (hl : Listed s) (hs : step s act = .ok t) :
    Traced t := by
  cases does_of_step hs with
  | newAwaiter k => exact h.newAwaiter hl k
  | @ready id a ha hp hr =>
    refine h.advance (b := some { a with phase := .ready }) (hl.lt_nextId ha) ha
      (fun x => lookup_insert_eq _ _ _ _) rfl rfl rfl nofun fun v hcv hf => ?_
    obtain ⟨hres, hnil⟩ := hf.story.of_constructed hp
    have ht : testsOf (s.log ++ [.ready id]) id = [] := by rw [testsOf_append, hnil]; rfl
    refine ⟨hcv.note rfl nofun nofun, ?_⟩
    rintro c ⟨⟩
    refine hf.of_note nofun nofun rfl ?_ (by rw [hp]; nofun) (by rw [hp]; nofun)
      nofun
    rw [ht, hres]
    exact .ready ((awaitReady_eq hres).2 hr)
  | @suspended id a ha hp hr =>
    refine h.advance (b := some { a with phase := .suspended }) (hl.lt_nextId ha) ha
      (fun x => lookup_insert_eq _ _ _ _) rfl rfl rfl nofun fun v hcv hf => ?_
    obtain ⟨hres, hnil⟩ := hf.story.of_constructed hp
    have hnone := (awaitReady_eq hres).1 hr
    have ht : testsOf (s.log ++ [.suspended id (a.kind.holds s.value)]) id = [] := by
      rw [testsOf_append, hnil]; rfl
    refine ⟨hcv.note rfl nofun nofun, ?_⟩
    rintro c ⟨⟩
    refine hf.of_note nofun nofun rfl ?_ (by rw [hp]; nofun) (by rw [hp]; nofun)
      nofun
    rw [ht, hres, hnone]
    exact .waiting hnone nofun
  | @yielded id a r ha hp hr =>
    refine h.advance (b := some { a with phase := .done }) (hl.lt_nextId ha) ha
      (fun x => lookup_insert_eq _ _ _ _) rfl rfl rfl nofun fun v hcv hf => ?_
    refine ⟨hcv.yield (hf.story.yields hp hr), ?_⟩
    rintro c ⟨⟩
    refine ⟨rfl, .done, fun _ hm => hf.kept ?_ (mem_of_ne hm nofun), fun hd => absurd rfl hd,
      nofun⟩
    rcases hp with hp | hp
    · rw [hp]; nofun
    · rw [hp]; nofun
  | @cancelled id a ha hp =>
    refine h.advance (b := some { a with phase := .cancelled }) (hl.lt_nextId ha) ha
      (fun x => lookup_insert_eq _ _ _ _) rfl rfl rfl nofun fun v hcv hf => ?_
    obtain ⟨-, hres, hfail⟩ := hf.story.of_suspended hp
    have ht : testsOf (s.log ++ [.withdrawn id]) id = testsOf s.log id := testsOf_note _ rfl
    refine ⟨hcv.withdraw hfail, ?_⟩
    rintro c ⟨⟩
    refine ⟨rfl, ?_, fun hc => absurd rfl hc,
      fun _ r hm => hf.silent (by rw [hp]; nofun) r (mem_of_ne hm nofun), nofun⟩
    rw [ht, hres]
    exact .cancelled hfail
  | destroyed ha => exact h.destroy hl ha
  | modified fn => exact h.congr rfl rfl rfl
  | @finished b bs hb hp => exact h.congr rfl rfl rfl
  | @tested b bs id rest a hb hp ha =>
    have hph : a.phase = .suspended := by
      refine (hl.mem_iff_phase ha).1 ?_
      rw [all_serve hb hp]
      exact List.mem_cons_self
    have hserved : Traced { s with lists := { s.lists with batches := b.serve id rest :: bs } } :=
      h.congr rfl rfl rfl
    exact hserved.onChanged (hl.lt_nextId ha) ha hph b.data

theorem traced_of_reach {v : T} {ok : State T → Action T → Prop}
    (h : Reach step ok (State.init v) s) : Traced s :=
  h.invariant_of (fun _ hr => listed_of_reach hr) (traced_init v)
    fun _ _ _ hl ht _ hs => ht.step hl hs

end Corral.Value
