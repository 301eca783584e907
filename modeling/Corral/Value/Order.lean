import Corral.Value.Course

/-!
# `Value`: one modification after another

When no call of `modify()` is made inside another one, every waiter is tested once by each of them, in
the order of the wait list, to whose end those go that do not match.

* `Unnested`: the condition on the steps;
* `allTests`, `puts`: the tests, and who was put at the end of the wait list, in the order in which it
  happened;
* `InTurn`: the calls against these;
* `modifications_in_order`: so it is in every such run.
-/

namespace Corral.Value

open Registry ActionMachine WaitQueue

variable {T : Type*} {s t : State T} {id : ℕ} {a : Awaiter T} {e : Event T}

/-- No modification is made while another one is in progress. -/
def Unnested (s : State T) : Action T → Prop
  | .modify _ => s.lists.batches = []
  | _ => True

/-- Who was tested, against which values. -/
def Event.tests? : Event T → Option (ℕ × T × T)
  | .tested t => some (t.id, t.prev, t.value)
  | _ => none

/-- Who goes to the end of the wait list: those that are suspended, and those that do not match. -/
def Event.put? : Event T → Option ℕ
  | .suspended id _ => some id
  | .tested t => if t.matched then none else some t.id
  | _ => none

def allTests (log : List (Event T)) : List (ℕ × T × T) := log.filterMap Event.tests?

def puts (log : List (Event T)) : List ℕ := log.filterMap Event.put?

/-- The tests that a call has made. -/
def tests (b : Batch ℕ (Change T)) : List (ℕ × T × T) :=
  b.served.map fun id => (id, b.data.prev, b.data.value)

/-- An awaiter that has been awaited. -/
def Settled (s : State T) (id : ℕ) : Prop :=
  id < s.nextId ∧ ∀ a, s.awaiters.lookup id = some a → a.phase ≠ .constructed

/-- At most one call is in progress; the calls have made the tests, in their order; those that a call
has not tested have been withdrawn; those that it has put back are in the order in which it found them;
and the lists are in the order in which the waiters were last put there. -/
structure InTurn (s : State T) : Prop where
  one : s.lists.batches.length ≤ 1
  tested : allTests s.log = (s.finished ++ s.lists.batches).flatMap tests
  withdrew : ∀ b ∈ s.finished ++ s.lists.batches, ∀ id ∈ b.left, .withdrawn id ∈ s.log
  relative : ∀ b ∈ s.lists.batches,
    (s.lists.waiting.filter (· ∈ b.snapshot) ++ b.pending).Sublist b.snapshot
  settled : ∀ b ∈ s.lists.batches, ∀ id ∈ b.snapshot, Settled s id
  order : s.lists.all.Sublist (puts s.log).dedup

theorem allTests_append (log : List (Event T)) (e : Event T) :
    allTests (log ++ [e]) = allTests log ++ e.tests?.toList := by
  simp only [allTests, List.filterMap_append]
  cases e <;> rfl

theorem puts_append (log : List (Event T)) (e : Event T) :
    puts (log ++ [e]) = puts log ++ e.put?.toList := by
  simp only [puts, List.filterMap_append, List.filterMap_cons, List.filterMap_nil]
  cases e.put? <;> rfl

theorem inTurn_init (v : T) : InTurn (State.init v) :=
  ⟨Nat.zero_le 1, rfl, nofun, nofun, nofun, List.nil_sublist _⟩

/-- Once awaited, an awaiter remains so. -/
theorem Settled.step {act : Action T} (h : Settled s id) (hs : step s act = .ok t) :
    Settled t id := by
  obtain ⟨hlt, hph⟩ := h
  have hset : ∀ {i : ℕ} {b : Awaiter T}, b.phase ≠ .constructed → ∀ a,
      (s.awaiters.insert i b).lookup id = some a → a.phase ≠ .constructed := by
    intro i b hb a ha
    rw [lookup_insert_eq] at ha
    split_ifs at ha
    · cases ha
      exact hb
    · exact hph a ha
  cases does_of_step hs with
  | newAwaiter k =>
    refine ⟨hlt.trans (Nat.lt_succ_self _), fun a ha => hph a ?_⟩
    rwa [← AList.lookup_insert_ne hlt.ne]
  | ready ha hp hr => exact ⟨hlt, hset nofun⟩
  | suspended ha hp hr => exact ⟨hlt, hset nofun⟩
  | yielded ha hp hr => exact ⟨hlt, hset nofun⟩
  | cancelled ha hp => exact ⟨hlt, hset nofun⟩
  | destroyed ha =>
    unfold State.destroy
    split_ifs
    · exact ⟨hlt, fun a ha => hph a (lookup_of_lookup_erase ha)⟩
    · exact ⟨hlt, fun a ha => hph a (lookup_of_lookup_erase ha)⟩
  | modified fn => exact ⟨hlt, hph⟩
  | finished hb hp => exact ⟨hlt, hph⟩
  | tested hb hp ha =>
    unfold State.onChanged
    split_ifs
    · exact ⟨hlt, hset nofun⟩
    · exact ⟨hlt, hph⟩

/-- An event that is neither a test nor puts an awaiter in the lists. -/
theorem InTurn.note (h : InTurn s) (hl : t.lists = s.lists) (hf : t.finished = s.finished)
    (hlog : t.log = s.log ++ [e]) (ht : e.tests? = none) (hp : e.put? = none)
    (hset : ∀ id, Settled s id → Settled t id) : InTurn t := by
  have htests : allTests t.log = allTests s.log := by
    rw [hlog, allTests_append, ht, Option.toList_none, List.append_nil]
  have hputs : puts t.log = puts s.log := by
    rw [hlog, puts_append, hp, Option.toList_none, List.append_nil]
  refine ⟨by rw [hl]; exact h.one, by rw [htests, hf, hl]; exact h.tested, fun b hb i hi => ?_,
    by rw [hl]; exact h.relative, fun b hb i hi => ?_, by rw [hl, hputs]; exact h.order⟩
  · rw [hl, hf] at hb
    rw [hlog]
    exact List.mem_append_left _ (h.withdrew b hb i hi)
  · rw [hl] at hb
    exact hset i (h.settled b hb i hi)

theorem tests_unlink (b : Batch ℕ (Change T)) (i : ℕ) : tests (b.unlink i) = tests b := by
  rw [tests, served_unlink, data_unlink]
  rfl

/-- A suspended awaiter is cancelled or destroyed. -/
theorem InTurn.unlink (h : InTurn s) (hl : Listed s) (hlists : t.lists = s.lists.unlink id)
    (hf : t.finished = s.finished) (hlog : t.log = s.log ++ [.withdrawn id])
    (hset : ∀ id, Settled s id → Settled t id) : InTurn t := by
  have htests : allTests t.log = allTests s.log := by
    rw [hlog, allTests_append]
    exact List.append_nil _
  have hputs : puts t.log = puts s.log := by
    rw [hlog, puts_append]
    exact List.append_nil _
  have hbatches : t.lists.batches = s.lists.batches.map (·.unlink id) := by rw [hlists]; rfl
  refine ⟨?_, ?_, fun b hb j hj => ?_, fun b hb => ?_, fun b hb j hj => ?_, ?_⟩
  · rw [hbatches, List.length_map]
    exact h.one
  · rw [htests, hf, hbatches, h.tested, List.flatMap_append, List.flatMap_append, List.flatMap_map]
    simp only [tests_unlink]
  · rw [hlog]
    rw [hf, hbatches, List.mem_append] at hb
    rcases hb with hb | hb
    · exact List.mem_append_left _ (h.withdrew b (List.mem_append_left _ hb) j hj)
    · obtain ⟨c, hc, rfl⟩ := List.mem_map.1 hb
      rcases mem_left_unlink hj with hj | ⟨rfl, -⟩
      · exact List.mem_append_left _ (h.withdrew c (List.mem_append_right _ hc) j hj)
      · exact List.mem_append_right _ (List.mem_singleton_self _)
  · rw [hbatches] at hb
    obtain ⟨c, hc, rfl⟩ := List.mem_map.1 hb
    rw [snapshot_unlink, pending_unlink, hlists]
    have hsub : ((s.lists.unlink id).waiting.filter (· ∈ c.snapshot) ++ c.pending.erase id).Sublist
        (s.lists.waiting.filter (· ∈ c.snapshot) ++ c.pending) :=
      (List.erase_sublist.filter _).append List.erase_sublist
    exact hsub.trans (h.relative c hc)
  · rw [hbatches] at hb
    obtain ⟨c, hc, rfl⟩ := List.mem_map.1 hb
    rw [snapshot_unlink] at hj
    exact hset j (h.settled c hc j hj)
  · rw [hputs, hlists, all_unlink hl.sound]
    exact List.filter_sublist.trans h.order

/-- An awaiter is suspended. -/
theorem InTurn.suspend (h : InTurn s) (hl : Listed s) (ha : s.awaiters.lookup id = some a)
    (hp : a.phase = .constructed) (hset : ∀ i, Settled s i → Settled (s.awaitSuspend id a) i) :
    InTurn (s.awaitSuspend id a) := by
  have hout : id ∉ s.lists.all := by
    rw [hl.mem_iff_phase ha, hp]
    nofun
  have hlog : (s.awaitSuspend id a).log = s.log ++ [.suspended id (a.kind.holds s.value)] := rfl
  have htests : allTests (s.awaitSuspend id a).log = allTests s.log := by
    rw [hlog, allTests_append]
    exact List.append_nil _
  refine ⟨h.one, htests.trans h.tested, fun b hb j hj => ?_, fun b hb => ?_,
    fun b hb j hj => hset j (h.settled b hb j hj), ?_⟩
  · exact List.mem_append_left _ (h.withdrew b hb j hj)
  · -- a new waiter is not one of those that the call found
    have hnew : id ∉ b.snapshot := fun hm => (h.settled b hb id hm).2 a ha hp
    show ((s.lists.waiting ++ [id]).filter (· ∈ b.snapshot) ++ b.pending).Sublist b.snapshot
    rw [List.filter_append, List.filter_singleton, decide_eq_false hnew]
    simpa using h.relative b hb
  · rw [hlog, puts_append]
    exact (all_put s.lists id).symm ▸ sublist_dedup_concat h.order hout

/-- A call begins. -/
theorem InTurn.modify (h : InTurn s) (hl : Listed s) (hb : s.lists.batches = []) (fn : T → T) :
    InTurn (s.modify fn) := by
  have hbatches : (s.modify fn).lists.batches
      = [⟨⟨s.value, fn s.value⟩, s.lists.waiting, [], [], s.lists.waiting⟩] := by
    show _ :: s.lists.batches = _
    rw [hb]
  refine ⟨by rw [hbatches]; rfl, ?_, fun b hb' j hj => ?_, fun b hb' => ?_, fun b hb' j hj => ?_, ?_⟩
  · rw [hbatches]
    show allTests s.log = (s.finished ++ _).flatMap tests
    rw [h.tested, hb, List.flatMap_append, List.flatMap_append]
    rfl
  · rw [hbatches] at hb'
    rcases List.mem_append.1 hb' with hb' | hb'
    · exact h.withdrew b (List.mem_append_left _ hb') j hj
    · rw [List.mem_singleton.1 hb'] at hj
      cases hj
  · rw [hbatches] at hb'
    rw [List.mem_singleton.1 hb']
    exact List.Sublist.refl _
  · rw [hbatches] at hb'
    rw [List.mem_singleton.1 hb'] at hj
    obtain ⟨a, ha, hp⟩ := (hl.enrolled.mem_iff j).1 (mem_all.2 (.inr hj))
    refine ⟨hl.lt_nextId ha, fun c hc => ?_⟩
    have hc : s.awaiters.lookup j = some c := hc
    rw [ha] at hc
    cases hc
    rw [hp]
    nofun
  · have hall : (s.modify fn).lists.all = s.lists.all := by
      simp [Lists.all, hb, State.modify, Lists.start]
    rw [hall]
    exact h.order

/-- The call in progress returns. -/
theorem InTurn.finish {b : Batch ℕ (Change T)} {bs : List (Batch ℕ (Change T))} (h : InTurn s)
    (hb : s.lists.batches = b :: bs) (hp : b.pending = []) :
    InTurn { s with
      lists := { s.lists with batches := bs }
      looping := false
      finished := s.finished ++ [b] } := by
  have hnil : bs = [] := by
    have hone := h.one
    rw [hb, List.length_cons] at hone
    exact List.eq_nil_of_length_eq_zero (by omega)
  subst hnil
  refine ⟨Nat.zero_le 1, ?_, fun c hc j hj => ?_, nofun, nofun, ?_⟩
  · show allTests s.log = (s.finished ++ [b] ++ []).flatMap tests
    rw [h.tested, hb, List.append_nil]
  · have hc : c ∈ (s.finished ++ [b]) ++ [] := hc
    rw [List.append_nil] at hc
    exact h.withdrew c (hb ▸ hc) j hj
  · rw [all_finish hb hp]
    exact h.order

/-- A waiter is tested: it is resumed, or goes to the end of the wait list. -/
theorem InTurn.test {b : Batch ℕ (Change T)} {bs : List (Batch ℕ (Change T))} {rest : List ℕ}
    (h : InTurn s) (hl : Listed s) (hb : s.lists.batches = b :: bs) (hp : b.pending = id :: rest)
    {x : Test T} (hx : x = ⟨id, b.data.prev, b.data.value, x.matched⟩)
    (hlists : t.lists = if x.matched then { s.lists with batches := b.serve id rest :: bs }
      else ({ s.lists with batches := b.serve id rest :: bs } : Lists ℕ (Change T)).put id)
    (hf : t.finished = s.finished) (hlog : t.log = s.log ++ [.tested x])
    (hset : ∀ id, Settled s id → Settled t id) : InTurn t := by
  have hnil : bs = [] := by
    have hone := h.one
    rw [hb, List.length_cons] at hone
    exact List.eq_nil_of_length_eq_zero (by omega)
  subst hnil
  have hbatches : t.lists.batches = [b.serve id rest] := by
    rw [hlists]
    split_ifs <;> rfl
  have hid : x.id = id := by rw [hx]
  obtain ⟨-, hout⟩ := hl.sound.serve hb hp
  have hmem : id ∈ b.snapshot := by
    have hf := hl.sound.ordered b (by simp [hb])
    exact (hf.mem_iff.1 (.inr (by simp [hp]))).1
  refine ⟨by rw [hbatches]; rfl, ?_, fun c hc j hj => ?_, fun c hc => ?_, fun c hc j hj => ?_, ?_⟩
  · rw [hlog, allTests_append, hf, hbatches, h.tested, hb, List.flatMap_append, List.flatMap_append,
      List.append_assoc]
    congr 1
    rw [hx]
    simp [tests, Batch.serve, Event.tests?]
  · rw [hlog]
    refine List.mem_append_left _ ?_
    rw [hf, hbatches] at hc
    rcases List.mem_append.1 hc with hc | hc
    · exact h.withdrew c (List.mem_append_left _ hc) j hj
    · rw [List.mem_singleton.1 hc] at hj
      exact h.withdrew b (List.mem_append_right _ (by simp [hb])) j hj
  · rw [hbatches] at hc
    rw [List.mem_singleton.1 hc]
    have hrel := h.relative b (by simp [hb])
    rw [hp] at hrel
    show (t.lists.waiting.filter (· ∈ b.snapshot) ++ rest).Sublist b.snapshot
    rw [hlists]
    split_ifs
    · exact (List.Sublist.append (List.Sublist.refl _) (List.sublist_cons_self id rest)).trans hrel
    · show ((s.lists.waiting ++ [id]).filter (· ∈ b.snapshot) ++ rest).Sublist b.snapshot
      rw [List.filter_append, List.filter_singleton, decide_eq_true hmem, List.append_assoc]
      exact hrel
  · rw [hbatches] at hc
    rw [List.mem_singleton.1 hc] at hj
    exact hset j (h.settled b (by simp [hb]) j hj)
  · have horder := h.order
    rw [all_serve hb hp] at horder
    have hrest := (List.sublist_cons_self id _).trans horder
    rw [hlists, hlog, puts_append]
    simp only [Event.put?, hid]
    split_ifs
    · rw [Option.toList_none, List.append_nil]
      exact hrest
    · rw [all_put]
      exact sublist_dedup_concat hrest hout

/-- The step lemma. -/
theorem InTurn.step {act : Action T} (h : InTurn s) (hl : Listed s) (hok : Unnested s act)
    (hs : step s act = .ok t) : InTurn t := by
  have hset : ∀ i, Settled s i → Settled t i := fun i hi => hi.step hs
  cases does_of_step hs with
  | newAwaiter k => exact h.note rfl rfl rfl rfl rfl hset
  | ready ha hp hr => exact h.note rfl rfl rfl rfl rfl hset
  | suspended ha hp hr => exact h.suspend hl ha hp hset
  | yielded ha hp hr => exact h.note rfl rfl rfl rfl rfl hset
  | cancelled ha hp => exact h.unlink hl rfl rfl rfl hset
  | @destroyed id a ha =>
    unfold State.destroy at hset ⊢
    split_ifs at hset ⊢ with hp
    · exact h.unlink hl rfl rfl rfl hset
    · have hlists : s.lists.unlink id = s.lists :=
        unlink_of_notMem fun hm => hp ((hl.mem_iff_phase ha).1 hm)
      simp only [hlists] at hset ⊢
      exact ⟨h.one, h.tested, h.withdrew, h.relative,
        fun b hb j hj => hset j (h.settled b hb j hj), h.order⟩
  | modified fn => exact h.modify hl hok fn
  | finished hb hp => exact h.finish hb hp
  | @tested b bs id rest a hb hp ha =>
    unfold State.onChanged at hset ⊢
    split_ifs at hset ⊢ with hm
    · exact h.test hl hb hp (x := ⟨id, b.data.prev, b.data.value, true⟩) rfl rfl rfl rfl hset
    · exact h.test hl hb hp (x := ⟨id, b.data.prev, b.data.value, false⟩) rfl rfl rfl rfl hset

theorem inTurn_of_reach {v : T} (h : Reach step Unnested (State.init v) s) : InTurn s :=
  h.invariant_of (fun _ hr => listed_of_reach hr) (inTurn_init v)
    fun _ _ _ hl ht hok hs => ht.step hl hok hs

/-! ### What the modifications do -/

/-- What holds of the modifications, and of the waiters, when there is one modification after another. -/
structure OneByOne (s : State T) : Prop where
  /-- Each call tests those that it has found, in the order in which it has found them, but for those
  that have been cancelled or destroyed before their turn. -/
  calls : ∀ b ∈ s.finished ++ s.lists.batches,
    b.Ordered ∧ ∀ id ∈ b.left, .withdrawn id ∈ s.log
  ended : ∀ b ∈ s.finished, b.pending = []
  /-- There are no other tests, and each is made with the values of the call. -/
  tested : allTests s.log = (s.finished ++ s.lists.batches).flatMap tests
  /-- A modification finds everybody who is suspended. -/
  found : ∀ fn t, s.lists.batches = [] → step s (.modify fn) = .ok t →
    t.lists.batches = [⟨⟨s.value, fn s.value⟩, s.lists.waiting, [], [], s.lists.waiting⟩] ∧
    ∀ id, id ∈ s.lists.waiting ↔ ∃ a, s.awaiters.lookup id = some a ∧ a.phase = .suspended
  /-- An awaiter is resumed by its first match and yields what that has captured, unless it has been
  cancelled or destroyed. -/
  course : ∀ id k built, .constructed id k built ∈ s.log → Course s.log id k built
  story : ∀ id a, s.awaiters.lookup id = some a → ∃ built, .constructed id a.kind built ∈ s.log ∧
    Story a.kind built a.phase a.result (testsOf s.log id)
  /-- A call leaves those that it puts back in their order. -/
  relative : ∀ b ∈ s.lists.batches,
    (s.lists.waiting.filter (· ∈ b.snapshot) ++ b.pending).Sublist b.snapshot
  /-- The waiters are in the order in which they have last been put in the wait list. -/
  order : s.lists.all.Sublist (puts s.log).dedup

theorem modifications_in_order (v : T) {s : State T} (h : Reach step Unnested (State.init v) s) :
    OneByOne s := by
  have hl := listed_of_reach h
  have ht := traced_of_reach h
  have hi := inTurn_of_reach h
  refine ⟨fun b hb => ⟨?_, hi.withdrew b hb⟩, fun b hb => (hl.ended b hb).2, hi.tested,
    fun fn t hb hs => ⟨?_, fun id => ?_⟩, ht.course, fun id a ha => ?_, hi.relative, hi.order⟩
  · rcases List.mem_append.1 hb with hb | hb
    · exact (hl.ended b hb).1
    · exact hl.sound.ordered b hb
  · cases does_of_step hs with
    | modified fn =>
      show _ :: s.lists.batches = _
      rw [hb]
  · rw [← hl.enrolled.mem_iff id, Lists.all, hb]
    rfl
  · obtain ⟨built, hm⟩ := ht.born id a ha
    exact ⟨built, hm, (ht.story id _ built hm a ha).2⟩

/-- Who has been suspended, in the order in which it happened. -/
def suspensions (log : List (Event T)) : List ℕ :=
  log.filterMap fun e => match e with
    | .suspended id _ => some id
    | _ => none

/-- Who has been resumed by a match. -/
def resumptions (log : List (Event T)) : List ℕ :=
  log.filterMap fun e => match e with
    | .tested t => if t.matched then some t.id else none
    | _ => none

/-- The first of two waiters is resumed by the first modification, and waits again before the second
one has been tested; both match the second modification. -/
def overtakingRun : List (Action ℕ) :=
  [.newAwaiter (untilEquals 1), .newAwaiter (untilEquals 2), .await 0, .await 1, .set 1, .next,
    .newAwaiter (untilEquals 2), .await 2, .next, .next, .set 2, .next, .next, .next]

instance (s : State T) : (act : Action T) → Decidable (Unnested s act)
  | .modify _ => decidable_of_iff (s.lists.batches.isEmpty = true) List.isEmpty_iff
  | .newAwaiter _ => isTrue trivial
  | .await _ => isTrue trivial
  | .awaitResume _ => isTrue trivial
  | .awaitCancel _ => isTrue trivial
  | .destroy _ => isTrue trivial
  | .next => isTrue trivial

theorem meets_overtakingRun : Meets step Unnested (State.init 0) overtakingRun := by
  decide

theorem modifications_in_order_overtaking : ∃ s, exec step (State.init 0) overtakingRun = .ok s ∧
    resumptions s.log = [0, 2, 1] ∧ OneByOne s :=
  ⟨_, rfl, rfl, modifications_in_order 0 (reach_of_exec meets_overtakingRun rfl)⟩

/-- The waiters are not resumed in the order of their suspension. -/
theorem not_resumed_in_order : ¬ ∀ (v : ℕ) (s : State ℕ), Reach step Unnested (State.init v) s →
    ∀ b ∈ s.finished, (b.served.filter (· ∈ resumptions s.log)).Sublist (suspensions s.log) := by
  intro h
  obtain ⟨s, hrun, b, hb, hserved, hres, hsus⟩ : ∃ s, exec step (State.init 0) overtakingRun = .ok s ∧
      ∃ b, s.finished[1]? = some b ∧ b.served = [2, 1] ∧ resumptions s.log = [0, 2, 1] ∧
      suspensions s.log = [0, 1, 2] := ⟨_, rfl, _, rfl, rfl, rfl, rfl⟩
  have hsub := h 0 s (reach_of_exec meets_overtakingRun hrun) b (List.mem_of_getElem? hb)
  rw [hserved, hres, hsus] at hsub
  exact absurd hsub (by decide)

end Corral.Value
