import Corral.ParkingLot.Model

/-!
# `ParkingLot` and `Event`: who is resumed

* `Does s act t`: the action `act` leads from `s` to `t`, one constructor for each outcome;
* `Parked`: the lists hold those who are suspended, each call of `unparkAll()` is in order, and those
  that it has passed over have been withdrawn;
* `exists_return`: the calls in progress can return;
* `unparkAll_exact`: what every call of `unparkAll()` does, in every run.
-/

namespace Corral.ParkingLot

open Registry ActionMachine WaitQueue

variable {s t : State} {id : ℕ} {p : Phase} {b : Batch ℕ ℕ} {bs : List (Batch ℕ ℕ)} {rest : List ℕ}

/-- The call of `unparkAll()` in progress resumes `id`. -/
def State.unparked (s : State) (b : Batch ℕ ℕ) (bs : List (Batch ℕ ℕ)) (id : ℕ) (rest : List ℕ) :
    State :=
  { s.setPhase id .unparked with
    lists := { s.lists with batches := b.serve id rest :: bs } }.record (.unparked id)

/-- The call of `unparkAll()` in progress returns. -/
def State.returned (s : State) (b : Batch ℕ ℕ) (bs : List (Batch ℕ ℕ)) : State :=
  { s with lists := { s.lists with batches := bs }, finished := s.finished ++ [b] }

theorem unparkNext_cases (hs : s.unparkNext = .ok t) : ∃ b bs, s.lists.batches = b :: bs ∧
    (b.pending = [] ∧ t = s.returned b bs ∨
      ∃ id rest p, b.pending = id :: rest ∧ s.awaiters.lookup id = some p ∧
        t = s.unparked b bs id rest) := by
  unfold State.unparkNext at hs
  cases hb : s.lists.batches with
  | nil => simp [hb] at hs
  | cons b bs =>
    refine ⟨b, bs, rfl, ?_⟩
    simp only [hb] at hs
    cases hp : b.pending with
    | nil =>
      simp only [hp] at hs
      cases hs
      exact .inl ⟨rfl, rfl⟩
    | cons id rest =>
      simp only [hp] at hs
      cases ha : s.awaiters.lookup id with
      | none => simp [ha] at hs
      | some p =>
        simp only [ha] at hs
        cases hs
        exact .inr ⟨id, rest, p, rfl, ha, rfl⟩

/-- What a step can do. -/
inductive Does (s : State) : Action → State → Prop
  | newAwaiter : Does s .newAwaiter s.newAwaiter
  | ready {id : ℕ} {p : Phase} : s.awaiters.lookup id = some p → p ≠ .suspended →
      Does s (.await id) (s.setPhase id .ready)
  | suspended {id : ℕ} {p : Phase} : s.awaiters.lookup id = some p → p ≠ .suspended →
      Does s (.await id) (s.doSuspend id)
  | finished {id : ℕ} {p : Phase} : s.awaiters.lookup id = some p → p ≠ .suspended →
      Does s (.awaitResume id) (s.setPhase id .done)
  | cancelled {id : ℕ} : s.awaiters.lookup id = some .suspended →
      Does s (.awaitCancel id)
        ({ s.setPhase id .cancelled with lists := s.lists.unlink id }.record (.withdrawn id))
  | destroyed {id : ℕ} {p : Phase} : s.awaiters.lookup id = some p →
      Does s (.destroy id) (s.destroy id p)
  | empty : s.lists.waiting = [] → Does s .unparkOne s
  | unparkedOne {id : ℕ} {rest : List ℕ} {p : Phase} : s.lists.waiting = id :: rest →
      s.awaiters.lookup id = some p →
      Does s .unparkOne ({ s.setPhase id .unparked with
        lists := { s.lists with waiting := rest }, depth := s.depth + 1 }.record (.unparked id))
  | unparkAll {act : Action} {b : Bool} {t : State} : act = .unparkAll ∨ act = .trigger →
      { s with triggered := b, lists := s.lists.start s.depth }.unparkNext = .ok t → Does s act t
  | oneReturned : s.base < s.depth → Does s .resumeReturns { s with depth := s.depth - 1 }
  | next {t : State} : ¬ s.base < s.depth → s.unparkNext = .ok t → Does s .resumeReturns t

theorem withAwaiter_eq_ok {f : Phase → Except Fault State} (hs : s.withAwaiter id f = .ok t) :
    ∃ p, s.awaiters.lookup id = some p ∧ f p = .ok t := by
  unfold State.withAwaiter at hs
  cases ha : s.awaiters.lookup id with
  | none => simp [ha] at hs
  | some p => exact ⟨p, rfl, by simpa [ha] using hs⟩

theorem does_of_unparkOne (hs : s.unparkOne = .ok t) : Does s .unparkOne t := by
  unfold State.unparkOne at hs
  cases hw : s.lists.waiting with
  | nil =>
    simp only [hw] at hs
    cases hs
    exact .empty hw
  | cons id rest =>
    simp only [hw] at hs
    cases ha : s.awaiters.lookup id with
    | none => simp [ha] at hs
    | some p =>
      simp only [ha] at hs
      cases hs
      exact .unparkedOne hw ha

theorem does_of_step {act : Action} (hs : step s act = .ok t) : Does s act t := by
  cases act with
  | newAwaiter => cases hs; exact .newAwaiter
  | await id =>
    obtain ⟨p, ha, hs⟩ := withAwaiter_eq_ok hs
    unfold State.await at hs
    split_ifs at hs with hp hr
    · cases hs
      exact .ready ha (by rintro rfl; simp at hp)
    · cases hs
      exact .suspended ha (by rintro rfl; simp at hp)
  | awaitResume id =>
    obtain ⟨p, ha, hs⟩ := withAwaiter_eq_ok hs
    unfold State.awaitResume at hs
    split_ifs at hs with hp
    cases hs
    exact .finished ha (by rintro rfl; simp at hp)
  | awaitCancel id =>
    obtain ⟨p, ha, hs⟩ := withAwaiter_eq_ok hs
    unfold State.awaitCancel at hs
    split_ifs at hs with hp
    cases hs
    exact .cancelled (not_not.1 hp ▸ ha)
  | destroy id =>
    obtain ⟨p, ha, hs⟩ := withAwaiter_eq_ok hs
    cases hs
    exact .destroyed ha
  | unparkOne =>
    simp only [step] at hs
    split_ifs at hs
    exact does_of_unparkOne hs
  | unparkAll =>
    simp only [step] at hs
    split_ifs at hs
    exact .unparkAll (.inl rfl) hs
  | trigger =>
    simp only [step] at hs
    split_ifs at hs
    exact .unparkAll (.inr rfl) hs
  | resumeReturns =>
    simp only [step, State.resumeReturns] at hs
    split_ifs at hs with hd
    · cases hs
      exact .oneReturned hd
    · exact .next hd hs

/-! ### The calls -/

/-- The lists hold those who are suspended, and every call is in order: those it has passed over have
been withdrawn, and those it has served have been resumed. -/
structure Parked (s : State) : Prop where
  enrolled : Enrolled s.lists s.awaiters fun p => p = .suspended
  fresh : ∀ id, s.nextId ≤ id → s.awaiters.lookup id = none
  ended : ∀ b ∈ s.finished, b.Ordered ∧ b.pending = []
  accounted : Accounted (s.finished ++ s.lists.batches) (fun id => .withdrawn id ∈ s.log)
    fun id => .unparked id ∈ s.log

theorem parked_init (self : Self) : Parked (State.init self) :=
  ⟨.nil, fun _ _ => rfl, nofun, nofun, nofun⟩

/-- One more event does not change what has happened. -/
theorem Parked.recorded (h : Parked s) (e : Event) :
    Accounted (s.finished ++ s.lists.batches) (fun id => .withdrawn id ∈ s.log ++ [e])
      fun id => .unparked id ∈ s.log ++ [e] :=
  h.accounted.mono (fun _ hm => List.mem_append_left _ hm) fun _ hm => List.mem_append_left _ hm

theorem Parked.lt_nextId (h : Parked s) (ha : s.awaiters.lookup id = some p) : id < s.nextId := by
  by_contra hlt
  rw [h.fresh id (by omega)] at ha
  cases ha

theorem Parked.fresh_insert (h : Parked s) (ha : s.awaiters.lookup id = some p) (q : Phase) :
    ∀ k, s.nextId ≤ k → (s.awaiters.insert id q).lookup k = none := by
  intro k hk
  have hlt := h.lt_nextId ha
  rw [lookup_insert_eq, if_neg (by omega)]
  exact h.fresh k hk

/-- An awaiter that is not suspended changes its phase, and is not suspended either. -/
theorem Parked.setPhase (h : Parked s) (ha : s.awaiters.lookup id = some p) (hp : p ≠ .suspended)
    {q : Phase} (hq : q ≠ .suspended) : Parked (s.setPhase id q) :=
  ⟨h.enrolled.stay (fun hm => hp ((h.enrolled.mem_all_iff ha).1 hm)) hq, h.fresh_insert ha q, h.ended,
    h.accounted⟩

theorem Parked.newAwaiter (h : Parked s) : Parked s.newAwaiter := by
  have hout : s.nextId ∉ s.lists.all := by
    rw [h.enrolled.mem_iff, h.fresh _ le_rfl]
    simp
  refine ⟨h.enrolled.stay hout nofun, fun x hx => ?_, h.ended, h.accounted⟩
  have hx : s.nextId + 1 ≤ x := hx
  show (s.awaiters.insert s.nextId _).lookup x = none
  rw [lookup_insert_eq, if_neg (by omega)]
  exact h.fresh x (by omega)

/-- A suspended awaiter is withdrawn. -/
theorem Parked.unlink (h : Parked s) {r : Reg ℕ Phase}
    (he : Enrolled (s.lists.unlink id) r fun p => p = .suspended)
    (hfresh : ∀ k, s.nextId ≤ k → r.lookup k = none) :
    Parked ({ s with lists := s.lists.unlink id, awaiters := r }.record (.withdrawn id)) :=
  ⟨he, hfresh, h.ended,
    (h.recorded (.withdrawn id)).unlink (List.mem_append_right _ (List.mem_singleton_self _))⟩

theorem Parked.destroy (h : Parked s) (ha : s.awaiters.lookup id = some p) :
    Parked (s.destroy id p) := by
  have he := h.enrolled.erase id
  have hfresh : ∀ k, s.nextId ≤ k → (s.awaiters.erase id).lookup k = none := by
    intro k hk
    rw [lookup_erase_eq]
    split_ifs
    · rfl
    · exact h.fresh k hk
  unfold State.destroy
  by_cases hp : p = .suspended
  · rw [if_pos hp]
    exact h.unlink he hfresh
  · rw [if_neg hp]
    have hlists : s.lists.unlink id = s.lists :=
      unlink_of_notMem fun hm => hp ((h.enrolled.mem_all_iff ha).1 hm)
    rw [hlists] at he ⊢
    exact ⟨he, hfresh, h.ended, h.accounted⟩

/-- A call begins. -/
theorem Parked.start (h : Parked s) (tr : Bool) (d : ℕ) :
    Parked { s with triggered := tr, lists := s.lists.start d } :=
  ⟨h.enrolled.relist (h.enrolled.sound.start d) fun _ => mem_start d, h.fresh, h.ended,
    h.accounted.start d s.lists.waiting⟩

/-- The loop of a call. -/
theorem Parked.unparkNext (h : Parked s) (hs : s.unparkNext = .ok t) : Parked t := by
  obtain ⟨b, bs, hb, ⟨hp, rfl⟩ | ⟨id, rest, p, hp, ha, rfl⟩⟩ := unparkNext_cases hs
  · refine ⟨h.enrolled.relist (h.enrolled.sound.finish hb hp) fun x => mem_finish hb hp,
      h.fresh, fun c hc => ?_, (hb ▸ h.accounted).finish⟩
    rcases List.mem_append.1 hc with hc | hc
    · exact h.ended c hc
    · rw [List.mem_singleton.1 hc]
      exact ⟨h.enrolled.sound.ordered b (hb ▸ List.mem_cons_self), hp⟩
  · have hacc := h.recorded (.unparked id)
    rw [hb] at hacc
    exact ⟨h.enrolled.serve hb hp nofun, h.fresh_insert ha .unparked, h.ended,
      hacc.serve (List.mem_append_right _ (List.mem_singleton_self _)) rest⟩

/-- The step lemma. -/
theorem Parked.step {act : Action} (h : Parked s) (hs : step s act = .ok t) : Parked t := by
  cases does_of_step hs with
  | newAwaiter => exact h.newAwaiter
  | ready ha hp => exact h.setPhase ha hp nofun
  | @suspended id p ha hp =>
    have hout : id ∉ s.lists.all := fun hm => hp ((h.enrolled.mem_all_iff ha).1 hm)
    exact ⟨h.enrolled.put hout rfl, h.fresh_insert ha .suspended, h.ended, h.recorded (.suspended id)⟩
  | finished ha hp => exact h.setPhase ha hp nofun
  | cancelled ha => exact h.unlink (h.enrolled.unlink nofun) (h.fresh_insert ha _)
  | destroyed ha => exact h.destroy ha
  | empty hw => exact h
  | @unparkedOne id rest p hw ha =>
    exact ⟨h.enrolled.pop hw nofun, h.fresh_insert ha .unparked, h.ended, h.recorded (.unparked id)⟩
  | unparkAll hact hs => exact (h.start _ _).unparkNext hs
  | oneReturned hd => exact ⟨h.enrolled, h.fresh, h.ended, h.accounted⟩
  | next hd hs => exact h.unparkNext hs

theorem parked_of_reach {self : Self} (h : Reach step anyAction (State.init self) s) : Parked s :=
  h.invariant (parked_init self) fun _ _ _ hp _ hs => hp.step hs

/-! ### Returning -/

/-- How many times `resume()` has still to return, if nothing else happens. -/
def State.due (s : State) : ℕ := s.depth + (s.lists.batches.map fun b => b.pending.length + 1).sum

/-- While a call is in progress, a `resume()` can return, and there is one less to return then. -/
theorem exists_return (hp : Parked s) (hbusy : ¬ (s.lists.batches = [] ∧ s.depth = 0)) :
    ∃ t, step s .resumeReturns = .ok t ∧ t.due < s.due := by
  simp only [ParkingLot.step, State.resumeReturns]
  by_cases hd : s.base < s.depth
  · refine ⟨_, if_pos hd, ?_⟩
    have hlt : s.depth - 1 < s.depth := by omega
    exact Nat.add_lt_add_right hlt _
  · rw [if_neg hd]
    cases hb : s.lists.batches with
    | nil =>
      simp only [State.base, hb] at hd
      exact absurd ⟨hb, by omega⟩ hbusy
    | cons b bs =>
      cases hpd : b.pending with
      | nil =>
        refine ⟨s.returned b bs, by simp [State.unparkNext, hb, hpd, State.returned], ?_⟩
        simp [State.due, State.returned, hb, hpd]
      | cons id rest =>
        have hm : id ∈ s.lists.all := by
          rw [all_serve hb hpd]
          exact List.mem_cons_self
        obtain ⟨p, ha, -⟩ := (hp.enrolled.mem_iff id).1 hm
        refine ⟨s.unparked b bs id rest, by simp [State.unparkNext, hb, hpd, ha, State.unparked], ?_⟩
        simp [State.due, State.unparked, State.setPhase, State.record, Batch.serve, hb, hpd]

/-! ### What `unparkAll()` does -/

/-- A call of `unparkAll()` finds those who wait, and nobody else. -/
theorem unparkAll_cases {tr : Bool}
    (hs : { s with triggered := tr, lists := s.lists.start s.depth }.unparkNext = .ok t) :
    ∃ b, b.snapshot = s.lists.waiting ∧ t.lists.waiting = [] ∧
      (t.lists.batches = b :: s.lists.batches ∨
        b.snapshot = [] ∧ t.lists.batches = s.lists.batches ∧ t.finished = s.finished ++ [b]) := by
  obtain ⟨b, bs, hb, ⟨hp, rfl⟩ | ⟨id, rest, p, hp, -, rfl⟩⟩ := unparkNext_cases hs
  · cases hb
    exact ⟨_, rfl, rfl, .inr ⟨hp, rfl, rfl⟩⟩
  · cases hb
    exact ⟨_, rfl, rfl, .inl rfl⟩

/-- What holds of the calls of `unparkAll()`. -/
structure Exact (s : State) : Prop where
  /-- A call finds those who wait when it begins. -/
  found : ∀ act t, act = .unparkAll ∨ act = .trigger → step s act = .ok t →
    ∃ b, b.snapshot = s.lists.waiting ∧ t.lists.waiting = [] ∧
      (t.lists.batches = b :: s.lists.batches ∨
        b.snapshot = [] ∧ t.lists.batches = s.lists.batches ∧ t.finished = s.finished ++ [b])
  /-- It resumes them in their order, each of them once, but for those that leave before their turn,
  which are cancelled or destroyed. -/
  calls : ∀ b ∈ s.finished ++ s.lists.batches, b.Ordered ∧
    (∀ id ∈ b.left, .withdrawn id ∈ s.log) ∧ ∀ id ∈ b.served, .unparked id ∈ s.log
  ended : ∀ b ∈ s.finished, b.pending = []
  /-- Its loop comes to an end, whatever those that it resumes do. -/
  bounded : ∀ b ∈ s.lists.batches, b.served.length + b.pending.length ≤ b.snapshot.length
  /-- If each `resume()` returns, all calls return. -/
  returns : ∃ as t, (∀ a ∈ as, a = .resumeReturns) ∧ exec step s as = .ok t ∧
    t.lists.batches = [] ∧ t.depth = 0

theorem unparkAll_exact (self : Self) {s : State}
    (h : Reach step anyAction (State.init self) s) : Exact s := by
  have hp := parked_of_reach h
  refine ⟨fun act t hact hs => ?_, fun b hb => ⟨?_, hp.accounted.left b hb,
    hp.accounted.served b hb⟩, fun b hb => (hp.ended b hb).2, fun b hb => (hp.enrolled.sound.ordered b hb).length_le, ?_⟩
  · rcases hact with rfl | rfl
    · cases does_of_step hs with
      | unparkAll hact hs => exact unparkAll_cases hs
    · cases does_of_step hs with
      | unparkAll hact hs => exact unparkAll_cases hs
  · rcases List.mem_append.1 hb with hb | hb
    · exact (hp.ended b hb).1
    · exact hp.enrolled.sound.ordered b hb
  · refine exists_run (I := Parked) (μ := State.due) hp fun s hp hbusy => ?_
    obtain ⟨t, hs, hlt⟩ := exists_return hp hbusy
    exact ⟨.resumeReturns, t, rfl, hs, hp.step hs, hlt⟩

end Corral.ParkingLot
