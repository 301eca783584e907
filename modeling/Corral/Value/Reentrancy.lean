import Corral.Value.Course

/-!
# `Value`: modifications inside modifications

A call of `modify()` tests its waiters against the value that it has stored itself.  When a waiter that
it resumes stores another value, the waiters that are still in the local list miss that one, and are
tested against the outdated value and parked.

* `Current`: no waiter is tested in vain whose predicate holds for the value stored;
* `Excused`: an awaiter that was suspended on a predicate that held, and has not been tested since;
* `Clean`: every other awaiter in the wait list has a predicate that does not hold;
* `no_stale_waiter`: so it is when the outermost call returns, if every test of the run is current.
-/

namespace Corral.Value

open Registry ActionMachine WaitQueue

variable {T : Type*} {s t : State T} {id : ℕ} {a : Awaiter T}

/-- When `modify()` tests a waiter that does not match, the waiter's predicate does not hold for the
stored value either, whether that is still the one it is tested against or not. -/
def Current (s : State T) : Action T → Prop
  | .next => ∀ b bs id rest a, s.lists.batches = b :: bs → b.pending = id :: rest →
      s.awaiters.lookup id = some a → a.kind.test b.data.prev b.data.value = false →
      a.kind.holds s.value = false
  | _ => True

def Excused (s : State T) (id : ℕ) : Prop :=
  .suspended id true ∈ s.log ∧ .suspended id false ∉ s.log ∧ testsOf s.log id = []

def Clean (s : State T) : Prop :=
  ∀ id ∈ s.lists.waiting, ∀ a, s.awaiters.lookup id = some a → a.kind.holds s.value = true →
    Excused s id

theorem Excused.congr (h : Excused s id) (hl : t.log = s.log) : Excused t id := by
  unfold Excused
  rwa [hl]

/-- What happens to the others is no matter. -/
theorem Excused.of_ne {e : Event T} (h : Excused s id) (hl : t.log = s.log ++ [e]) (he : e.id ≠ id) :
    Excused t id := by
  obtain ⟨h₁, h₂, h₃⟩ := h
  unfold Excused
  rw [hl, testsOf_of_ne _ he]
  refine ⟨List.mem_append_left _ h₁, fun hm => h₂ (mem_of_ne hm ?_), h₃⟩
  rintro rfl
  exact he rfl

/-- Those who stay in the wait list are as they were. -/
theorem Clean.of_subset (h : Clean s) (hv : t.value = s.value)
    (hsub : ∀ x ∈ t.lists.waiting, x ∈ s.lists.waiting ∧
      t.awaiters.lookup x = s.awaiters.lookup x ∧ (Excused s x → Excused t x)) : Clean t := by
  intro x hx c hc hholds
  obtain ⟨hx, hlook, hex⟩ := hsub x hx
  rw [hlook] at hc
  rw [hv] at hholds
  exact hex (h x hx c hc hholds)

/-- Something happens to an awaiter that is not in the wait list. -/
theorem Clean.aside {e : Event T} {b : Awaiter T} (h : Clean s) (hv : t.value = s.value)
    (hl : t.lists.waiting = s.lists.waiting) (hid : id ∉ s.lists.waiting)
    (hw : t.awaiters = s.awaiters.insert id b) (he : e.id = id) (hlog : t.log = s.log ++ [e]) :
    Clean t := by
  refine h.of_subset hv fun x hx => ?_
  rw [hl] at hx
  have hne : x ≠ id := by
    rintro rfl
    exact hid hx
  refine ⟨hx, ?_, fun hex => hex.of_ne hlog (by rw [he]; exact hne.symm)⟩
  rw [hw, lookup_insert_eq, if_neg hne]

theorem not_mem_waiting (hl : Listed s) (ha : s.awaiters.lookup id = some a)
    (hp : a.phase ≠ .suspended) : id ∉ s.lists.waiting := fun hm =>
  hp ((hl.mem_iff_phase ha).1 (mem_all.2 (.inr hm)))

/-- An awaiter joins the wait list. -/
theorem Clean.join {e : Event T} (h : Clean s) (hv : t.value = s.value)
    (hl : t.lists.waiting = s.lists.waiting ++ [id]) (hid : id ∉ s.lists.waiting)
    (hw : ∀ x, x ≠ id → t.awaiters.lookup x = s.awaiters.lookup x) (he : e.id = id)
    (hlog : t.log = s.log ++ [e])
    (hnew : ∀ b, t.awaiters.lookup id = some b → b.kind.holds s.value = true → Excused t id) :
    Clean t := by
  intro x hx c hc hholds
  rw [hl] at hx
  rw [hv] at hholds
  rcases List.mem_append.1 hx with hold | hlast
  · have hne : x ≠ id := by
      rintro rfl
      exact hid hold
    rw [hw x hne] at hc
    exact (h x hold c hc hholds).of_ne hlog (by rw [he]; exact hne.symm)
  · cases List.mem_singleton.1 hlast
    exact hnew c hc hholds

theorem Clean.suspend (h : Clean s) (hl : Listed s) (ht : Traced s)
    (ha : s.awaiters.lookup id = some a) (hp : a.phase = .constructed) :
    Clean (s.awaitSuspend id a) := by
  obtain ⟨v, hv⟩ := ht.born id a ha
  have hnil := ((ht.story id _ v hv a ha).2.of_constructed hp).2
  refine h.join (e := .suspended id (a.kind.holds s.value)) rfl rfl
    (not_mem_waiting hl ha (by rw [hp]; nofun)) (fun x hx => AList.lookup_insert_ne hx) rfl rfl
    fun b hb hholds => ?_
  have hb : some { a with phase := .suspended } = some b :=
    (AList.lookup_insert s.awaiters).symm.trans hb
  cases hb
  have hholds : a.kind.holds s.value = true := hholds
  refine ⟨?_, fun hm => ?_, (testsOf_note _ rfl).trans hnil⟩
  · rw [← hholds]
    exact List.mem_append_right _ (List.mem_singleton_self _)
  · rw [← Bool.not_true, ← hholds] at hm
    exact ht.unsuspended id a ha hp _ (mem_of_ne hm (by simp))

/-- A waiter is tested; one that does not match is not stale. -/
theorem Clean.onChanged (h : Clean s) (ha : s.awaiters.lookup id = some a)
    (hid : id ∉ s.lists.waiting) (c : Change T)
    (hcur : a.kind.test c.prev c.value = false → a.kind.holds s.value = false) :
    Clean (s.onChanged id a c) := by
  unfold State.onChanged
  split_ifs with hm
  · exact h.aside (e := .tested ⟨id, c.prev, c.value, true⟩) rfl rfl hid rfl rfl rfl
  · refine h.join (e := .tested ⟨id, c.prev, c.value, false⟩) rfl rfl hid (fun _ _ => rfl) rfl rfl
      fun b hb hholds => ?_
    have hb : some a = some b := ha.symm.trans hb
    cases hb
    rw [hcur (by simpa using hm)] at hholds
    cases hholds

/-- The step lemma. -/
theorem Clean.step {act : Action T} (h : Clean s) (hl : Listed s) (ht : Traced s)
    (hcur : Current s act) (hs : step s act = .ok t) : Clean t := by
  cases does_of_step hs with
  | newAwaiter k =>
    have hno : s.nextId ∉ s.lists.waiting := by
      intro hm
      obtain ⟨a, ha, -⟩ := (hl.enrolled.mem_iff _).1 (mem_all.2 (.inr hm))
      exact absurd (hl.lt_nextId ha) (lt_irrefl _)
    exact h.aside rfl rfl hno rfl rfl rfl
  | ready ha hp hr =>
    exact h.aside rfl rfl (not_mem_waiting hl ha (by rw [hp]; nofun)) rfl rfl rfl
  | suspended ha hp hr => exact h.suspend hl ht ha hp
  | yielded ha hp hr =>
    refine h.aside rfl rfl (not_mem_waiting hl ha ?_) rfl rfl rfl
    rcases hp with hp | hp
    · rw [hp]; nofun
    · rw [hp]; nofun
  | @cancelled id a ha hp =>
    refine h.of_subset rfl fun x hx => ?_
    obtain ⟨hne, hx⟩ := (hl.sound.waiting_nodup.mem_erase_iff).1 hx
    exact ⟨hx, AList.lookup_insert_ne hne, fun hex => hex.of_ne rfl hne.symm⟩
  | @destroyed id a ha =>
    refine h.of_subset ?_ fun x hx => ?_
    · unfold State.destroy
      split_ifs <;> rfl
    · have hx : x ∈ s.lists.waiting.erase id := by
        unfold State.destroy at hx
        split_ifs at hx <;> exact hx
      obtain ⟨hne, hx⟩ := (hl.sound.waiting_nodup.mem_erase_iff).1 hx
      refine ⟨hx, ?_, fun hex => ?_⟩
      · unfold State.destroy
        split_ifs <;> exact AList.lookup_erase_ne hne
      · unfold State.destroy
        split_ifs
        · exact hex.of_ne rfl hne.symm
        · exact hex.congr rfl
  | modified fn =>
    -- everybody is in the local list
    intro x hx
    cases hx
  | finished hb hp => exact h.of_subset rfl fun x hx => ⟨hx, rfl, fun hex => hex.congr rfl⟩
  | @tested b bs id rest a hb hp ha =>
    have hserved : Clean { s with lists := { s.lists with batches := b.serve id rest :: bs } } :=
      h.of_subset rfl fun x hx => ⟨hx, rfl, fun hex => hex.congr rfl⟩
    have hout := (hl.sound.serve hb hp).2
    exact hserved.onChanged ha (fun hm => hout (mem_all.2 (.inr hm))) b.data
      (hcur b bs id rest a hb hp ha)

theorem clean_of_reach {v : T} (h : Reach step Current (State.init v) s) : Clean s := by
  refine h.invariant_of (J := fun s => Listed s ∧ Traced s)
    (fun _ hr => ⟨listed_of_reach hr, traced_of_reach hr⟩) nofun ?_
  rintro s a t ⟨hl, ht⟩ hc hcur hs
  exact hc.step hl ht hcur hs

/-- When no call of `modify()` is in progress, no awaiter is suspended whose predicate holds for the
stored value, but for those that were suspended so and have not been tested since. -/
theorem no_stale_waiter (v : T) {s : State T} (h : Reach step Current (State.init v) s)
    (hb : s.lists.batches = []) {id : ℕ} {a : Awaiter T} (ha : s.awaiters.lookup id = some a)
    (hp : a.phase = .suspended) (hholds : a.kind.holds s.value = true) : Excused s id := by
  have hl := listed_of_reach h
  have hm : id ∈ s.lists.waiting := by
    rcases mem_all.1 ((hl.mem_iff_phase ha).2 hp) with ⟨b, hb', -⟩ | hm
    · rw [hb] at hb'
      cases hb'
    · exact hm
  exact clean_of_reach h id hm a ha hholds

/-- One awaiter is constructed before 1 is stored and awaited afterwards, another one waits for 2. -/
theorem no_stale_waiter_excused : ∃ s, exec step (State.init 0)
      [.newAwaiter (untilEquals 1), .newAwaiter (untilEquals 2), .await 1, .set 1, .next, .next,
        .await 0] = .ok s ∧ s.value = 1 ∧ Excused s 0 := by
  obtain ⟨s, hrun, hb, ha, hv⟩ : ∃ s, exec step (State.init 0)
      [.newAwaiter (untilEquals 1), .newAwaiter (untilEquals 2), .await 1, .set 1, .next, .next,
        .await 0] = .ok s ∧ s.lists.batches = [] ∧
      s.awaiters.lookup 0 = some ⟨untilEquals 1, none, .suspended⟩ ∧ s.value = 1 :=
    ⟨_, rfl, rfl, rfl, rfl⟩
  have hmeets : Meets step Current (State.init 0) [.newAwaiter (untilEquals 1),
      .newAwaiter (untilEquals 2), .await 1, .set 1, .next, .next, .await 0] := by
    refine ⟨trivial, ?_⟩
    rintro _ ⟨⟩
    refine ⟨trivial, ?_⟩
    rintro _ ⟨⟩
    refine ⟨trivial, ?_⟩
    rintro _ ⟨⟩
    refine ⟨trivial, ?_⟩
    rintro _ ⟨⟩
    refine ⟨?_, ?_⟩
    · rintro b bs id rest a ⟨⟩ ⟨⟩ ⟨⟩ -
      rfl
    rintro _ ⟨⟩
    refine ⟨?_, ?_⟩
    · rintro b bs id rest a ⟨⟩ ⟨⟩
    rintro _ ⟨⟩
    exact ⟨trivial, fun _ _ => trivial⟩
  exact ⟨s, hrun, hv, no_stale_waiter 0 (reach_of_exec hmeets hrun) hb ha rfl (by rw [hv]; rfl)⟩

/-- Two awaiters wait for 1 and for 2; the first is resumed, and stores 2. -/
def nestedRun : List (Action ℕ) :=
  [.newAwaiter (untilEquals 1), .newAwaiter (untilEquals 2), .await 0, .await 1,
    .set 1, .next, .set 2, .next, .next, .next]

/-- The second one is not resumed. -/
theorem not_no_stale_waiter : ¬ ∀ (v : ℕ) (s : State ℕ), Reach step anyAction (State.init v) s →
    s.lists.batches = [] → ∀ id a, s.awaiters.lookup id = some a → a.phase = .suspended →
      .suspended id false ∈ s.log → a.kind.holds s.value = false := by
  intro h
  have hs : ∃ s, exec step (State.init 0) nestedRun = .ok s ∧ s.lists.batches = [] ∧
      s.value = 2 ∧ s.awaiters.lookup 1 = some ⟨untilEquals 2, none, .suspended⟩ ∧
      s.log[3]? = some (.suspended 1 false) := ⟨_, rfl, rfl, rfl, rfl, rfl⟩
  obtain ⟨s, hrun, hb, hv, ha, hlog⟩ := hs
  have hstale := h 0 s (reach_of_run hrun) hb 1 _ ha rfl (List.mem_of_getElem? hlog)
  rw [hv] at hstale
  exact absurd hstale (by decide)

end Corral.Value
