import Corral.Channel.Claims

/-!
# `Channel`: nobody sleeps on something unclaimed

Every operation that can raise the unclaimed count of a half ends in the `wakeAwaiters()` loop
of that half.  So a half with parked awaiters has nothing unclaimed, except while such a loop
is still on the stack.

* `Served s h`: nobody sleeps in half `h` while there is something to claim there, or the loop
  that will look after him is in progress;
* `Detached s`: a closed channel has no parked readers, and no parked writers either unless the
  `close()` is still at its readers;
* `awake_of_reach`: both hold in every reached state;
* `parked_only_if_exhausted`: what follows when no call is in progress.
-/

namespace Corral.Channel

open Registry ActionMachine

variable {T : Type*} {s t : State T} {limit : Option ℕ}

/-- Nobody sleeps in half `h` while there is something to claim there, or a loop that wakes the
awaiters of `h` is in progress. -/
def Served (s : State T) (h : Half) : Prop :=
  Frame.wake h ∈ s.frames ∨ s.parked h = [] ∨ s.unclaimedCount h = 0

/-- `close()` has unlinked all awaiters, or is on its way to the writers. -/
structure Detached (s : State T) : Prop where
  readers : s.closed = true → s.parked .read = []
  writers : s.closed = true →
    s.parked .write = [] ∨ ∃ rest, Frame.unpark .read rest ∈ s.frames

/-- The invariant of the wakeups. -/
structure Awake (s : State T) : Prop where
  served : ∀ h, Served s h
  detached : Detached s

/-! ### The unclaimed counts -/

theorem unclaimedCount_congr {h : Half} (hbuf : t.buf = s.buf) (hb : t.bounded = s.bounded)
    (hcl : t.closed = s.closed) (hc : t.claims h = s.claims h) :
    t.unclaimedCount h = s.unclaimedCount h := by
  cases h with
  | read => simp only [State.unclaimedCount, State.size, hbuf, hc]
  | write => simp only [State.unclaimedCount, State.space, hbuf, hb, hcl, hc]

/-- A claim does not touch the other half. -/
theorem unclaimedCount_claim_ne {h : Half} (id : ℕ) {a : Awaiter T} (hh : h ≠ a.half) :
    (s.claim id a).unclaimedCount h = s.unclaimedCount h :=
  unclaimedCount_congr rfl rfl rfl (Function.update_of_ne hh _ _)

/-- A receive does not raise the unclaimed count of its own half. -/
theorem size_taken {c k : ℕ} (hi : Counted (owes .read c) s) (hc : c ≤ 1) (hk : 1 ≤ k)
    (hle : c ≤ s.claims .read) {buf : Queue T} (hkle : k ≤ c + s.size)
    (hsize : s.buf.size = k + buf.size)
    (hcap : buf.capacity = s.buf.capacity) (h₀ : s.size = 0) : (s.taken c buf).size = 0 := by
  have ht := (hi.taken hle hkle hsize hcap).claims_read_le
  have hs := hi.claims_read_le
  rw [size_of_le ht]
  rw [size_of_le hs] at h₀ hkle
  show buf.size - (Function.update s.claims .read (s.claims .read - c)) .read = 0
  rw [Function.update_self]
  omega

/-- A send does not raise the unclaimed count of its own half. -/
theorem space_put {c k : ℕ} (hi : Counted (owes .write c) s) (hc : c ≤ 1) (hk : 1 ≤ k)
    (hle : c ≤ s.claims .write) (hopen : s.closed = false) {buf : Queue T}
    (hkle : s.bounded = true → k ≤ c + s.space) (hsize : buf.size = s.buf.size + k)
    (hcap : s.buf.size + k ≤ s.buf.capacity → buf.capacity = s.buf.capacity)
    (h₀ : s.space = 0) : (s.put c buf).space = 0 := by
  cases hb : s.bounded with
  | false =>
    rw [space_of_unbounded hopen hb] at h₀
    norm_num [sizeMax] at h₀
  | true =>
    have ht := (hi.put hle hopen hkle hsize hcap).claims_write_le hb
    have hs := hi.claims_write_le hb
    rw [space_of_bounded (s := s.put c buf) hopen hb ht]
    have hkle' := hkle hb
    rw [space_of_bounded hopen hb hs] at h₀ hkle'
    show buf.capacity - buf.size -
      (Function.update s.claims .write (s.claims .write - c)) .write = 0
    rw [Function.update_self, hcap (by omega)]
    omega

/-! ### The loops -/

/-- A `wakeAwaiters()` loop serves its half and leaves the other one alone. -/
theorem Awake.wakeAwaiters {h : Half} (hi : Inv limit s)
    (hother : ∀ h', h' ≠ h → Served s h') (hd : Detached s)
    (hs : s.wakeAwaiters h = .ok t) : Awake t := by
  rcases wakeAwaiters_cases hs with ⟨rfl, hdone⟩ | ⟨id, rest, a, hu, hp, ha, -, rfl⟩
  · refine ⟨fun h' => ?_, hd⟩
    by_cases hh : h' = h
    · subst hh
      exact Or.inr hdone.symm
    · exact hother h' hh
  · obtain ⟨b, hb, hwaits⟩ := hi.linked.waits h id (by simp [waiting_cons_of_parked hp])
    have hab : a = b := Option.some.inj (ha.symm.trans hb)
    subst hab
    refine ⟨fun h' => ?_, fun hcl => ?_, fun hcl => ?_⟩
    · -- The loop itself is on the stack now, and the other half has kept its unclaimed count.
      by_cases hh : h' = h
      · subst hh
        exact Or.inl List.mem_cons_self
      · have hcount : (s.woken h id rest a).unclaimedCount h' = s.unclaimedCount h' :=
          unclaimedCount_claim_ne id (a := { a with phase := .woken })
            (fun he => hh (he.trans hwaits.half))
        rcases hother h' hh with hf | hpk | hz
        · exact Or.inl (List.mem_cons_of_mem _ hf)
        · exact Or.inr (Or.inl ((Function.update_of_ne hh _ _).trans hpk))
        · exact Or.inr (Or.inr (hcount.trans hz))
    · have hnil := hd.readers hcl
      have hne : Half.read ≠ h := fun he => by rw [← he, hnil] at hp; cases hp
      exact (Function.update_of_ne hne _ _).trans hnil
    · rcases hd.writers hcl with hnil | ⟨r, hr⟩
      · have hne : Half.write ≠ h := fun he => by rw [← he, hnil] at hp; cases hp
        exact Or.inl ((Function.update_of_ne hne _ _).trans hnil)
      · exact Or.inr ⟨r, List.mem_cons_of_mem _ hr⟩

/-- An `unparkAll()` loop of the write half. -/
theorem Awake.unparkWriters {l : List ℕ} (hserved : ∀ h, Served s h) (hd : Detached s)
    (hs : s.unparkWriters l = .ok t) : Awake t := by
  rcases unparkWriters_cases hs with ⟨-, rfl⟩ | ⟨id, rest, a, rfl, -, rfl⟩
  · exact ⟨hserved, hd⟩
  · refine ⟨fun h => ?_, hd.readers, fun hcl => ?_⟩
    · exact (hserved h).imp_left (List.mem_cons_of_mem _)
    · rcases hd.writers hcl with hnil | ⟨r, hr⟩
      · exact Or.inl hnil
      · exact Or.inr ⟨r, List.mem_cons_of_mem _ hr⟩

/-- An `unparkAll()` loop of the read half, and what `close()` does after it. -/
theorem Awake.unparkReaders {l : List ℕ} (hserved : ∀ h, Served s h)
    (hr : s.closed = true → s.parked .read = []) (hs : s.unparkReaders l = .ok t) : Awake t := by
  rcases unparkReaders_cases hs with ⟨-, hw⟩ | ⟨id, rest, a, rfl, -, rfl⟩
  · refine Awake.unparkWriters (s := s.writersDetached) (fun h => ?_) ⟨hr, fun _ => ?_⟩ hw
    · cases h with
      | read => exact hserved .read
      | write => exact Or.inr (Or.inl (parked_writersDetached s))
    · exact Or.inl (parked_writersDetached s)
  · exact ⟨fun h => (hserved h).imp_left (List.mem_cons_of_mem _), hr,
      fun _ => Or.inr ⟨rest, List.mem_cons_self⟩⟩

theorem awake_close (hs : s.close = .ok t) : Awake t := by
  refine Awake.unparkReaders (s := s.readersDetached) (fun h => ?_)
    (fun _ => parked_readersDetached s) hs
  cases h with
  | read => exact Or.inr (Or.inl (parked_readersDetached s))
  | write => exact Or.inr (Or.inr (space_of_closed rfl))

theorem Awake.resumeReturns (hi : Inv limit s) (ha : Awake s) (hs : s.resumeReturns = .ok t) :
    Awake t := by
  obtain ⟨hserved, hr, hw⟩ := ha
  rcases resumeReturns_cases hs with ⟨h, fs, hf, hs⟩ | ⟨rest, fs, hf, hs⟩ | ⟨rest, fs, hf, hs⟩
  · refine Awake.wakeAwaiters (s := { s with frames := fs }) (h := h)
      (hi.relink (fun h => by simp [State.waiting, hf, Frame.waiting]) rfl rfl rfl rfl rfl)
      (fun h' hh => ?_) ⟨hr, fun hcl => ?_⟩ hs
    · rcases hserved h' with hm | hrest
      · rw [hf, List.mem_cons] at hm
        exact Or.inl (hm.resolve_left fun he => hh (Frame.wake.inj he))
      · exact Or.inr hrest
    · rcases hw hcl with hnil | ⟨r, hm⟩
      · exact Or.inl hnil
      · rw [hf, List.mem_cons] at hm
        exact Or.inr ⟨r, hm.resolve_left (by simp)⟩
  · refine Awake.unparkReaders (s := { s with frames := fs }) (fun h => ?_) hr hs
    rcases hserved h with hm | hrest
    · rw [hf, List.mem_cons] at hm
      exact Or.inl (hm.resolve_left (by simp))
    · exact Or.inr hrest
  · refine Awake.unparkWriters (s := { s with frames := fs }) (fun h => ?_)
      ⟨hr, fun hcl => ?_⟩ hs
    · rcases hserved h with hm | hrest
      · rw [hf, List.mem_cons] at hm
        exact Or.inl (hm.resolve_left (by simp))
      · exact Or.inr hrest
    · rcases hw hcl with hnil | ⟨r, hm⟩
      · exact Or.inl hnil
      · rw [hf, List.mem_cons] at hm
        exact Or.inr ⟨r, hm.resolve_left (by simp)⟩

/-! ### Transfers -/

theorem Awake.record (ha : Awake s) (e : Event T) : Awake (s.record e) :=
  ⟨ha.served, ha.detached.readers, ha.detached.writers⟩

theorem Awake.readTransfer {c : ℕ} {r : Recv} {res : RecvResult T} (ha : Awake s)
    (hl : Linked s.waiting s.awaiters s.nextId) (hc : Counted (owes .read c) s) (hc₁ : c ≤ 1)
    (hs : s.readTransfer c r = .ok (res, t)) : Awake t := by
  obtain ⟨hle, ⟨rfl, -, -⟩ | ⟨buf, hne, hlen, hcont, hbuf, hw⟩⟩ := readTransfer_cases hs
  · exact ha
  · have hsize : s.buf.size = res.values.length + buf.size := by
      rw [Queue.size_eq, Queue.size_eq, hcont, List.length_append]
    have hi : Inv (s.taken c buf).limit (s.taken c buf) :=
      ⟨hl, hc.taken hle hlen hsize hbuf, rfl⟩
    refine Awake.wakeAwaiters (h := .write) hi (fun h hh => ?_)
      ⟨ha.detached.readers, ha.detached.writers⟩ hw
    cases h with
    | write => exact absurd rfl hh
    | read =>
      refine (ha.served .read).imp_right (Or.imp_right fun h₀ => ?_)
      exact size_taken hc hc₁ (List.length_pos_iff.2 hne) hle hlen hsize hbuf h₀

theorem Awake.writeTransfer {c : ℕ} {w : Send T} {res : SendResult} (ha : Awake s)
    (hl : Linked s.waiting s.awaiters s.nextId) (hc : Counted (owes .write c) s) (hc₁ : c ≤ 1)
    (hs : s.writeTransfer c w = .ok (res, t)) : Awake t := by
  obtain ⟨hle, ⟨rfl, -, -⟩ | ⟨buf, hne, hlen, hopen, hcont, hbuf, hw⟩⟩ := writeTransfer_cases hs
  · exact ha
  · have hsize : buf.size = s.buf.size + (w.accepted res).length := by
      rw [Queue.size_eq, Queue.size_eq, hcont, List.length_append]
    have hi : Inv (s.put c buf).limit (s.put c buf) :=
      ⟨hl, hc.put hle hopen hlen hsize hbuf, rfl⟩
    refine Awake.wakeAwaiters (h := .read) hi (fun h hh => ?_)
      ⟨ha.detached.readers, ha.detached.writers⟩ hw
    cases h with
    | read => exact absurd rfl hh
    | write =>
      refine (ha.served .write).imp_right (Or.imp_right fun h₀ => ?_)
      exact space_put hc hc₁ (List.length_pos_iff.2 hne) hle hopen hlen hsize hbuf h₀

theorem Awake.transfer {who : Option ℕ} {a : Awaiter T} {c : ℕ} (ha : Awake s)
    (hl : Linked s.waiting s.awaiters s.nextId) (hc : Counted (owes a.half c) s) (hc₁ : c ≤ 1)
    (hs : s.transfer who c a.args = .ok t) : Awake t := by
  rcases a with ⟨r | w, cl, ph⟩
  · obtain ⟨⟨res, u⟩, hu, rfl⟩ := map_eq_ok.1 hs
    exact (ha.readTransfer hl hc hc₁ hu).record _
  · obtain ⟨⟨res, u⟩, hu, rfl⟩ := map_eq_ok.1 hs
    exact (ha.writeTransfer hl hc hc₁ hu).record _

theorem Awake.tryTransfer (hi : Inv limit s) (ha : Awake s) (args : Recv ⊕ Send T)
    (hs : s.transfer none 0 args = .ok t) : Awake t := by
  refine ha.transfer (a := ⟨args, false, .constructed⟩) hi.linked ?_ (Nat.zero_le 1) hs
  simpa [owes] using hi.counted

/-! ### Awaiters -/

/-- A new claim takes something away, and wakes nobody. -/
theorem Awake.claim (ha : Awake s) {id : ℕ} {a : Awaiter T} (hu : s.unclaimedCount a.half ≠ 0) :
    Awake (s.claim id a) := by
  refine ⟨fun h => ?_, ha.detached.readers, ha.detached.writers⟩
  by_cases hh : h = a.half
  · subst hh
    rcases ha.served a.half with hf | hp | hz
    · exact Or.inl hf
    · exact Or.inr (Or.inl hp)
    · exact absurd hz hu
  · exact (ha.served h).imp_right (Or.imp_right (unclaimedCount_claim_ne _ hh).trans)

theorem Awake.newAwaiter (ha : Awake s) (args : Recv ⊕ Send T) : Awake (s.newAwaiter args) := by
  have hissued : Awake s.issued := ⟨ha.served, ha.detached.readers, ha.detached.writers⟩
  obtain ⟨a, -, ⟨hu, -, he⟩ | ⟨-, he⟩⟩ := newAwaiter_cases s args
  · rw [he]
    exact hissued.claim hu
  · rw [he]
    exact ⟨ha.served, ha.detached.readers, ha.detached.writers⟩

theorem Awake.awaitSuspend (ha : Awake s) {id : ℕ} {a : Awaiter T}
    (hs : s.awaitSuspend id a = .ok t) : Awake t := by
  obtain ⟨-, -, hopen, -, ⟨hu, rfl⟩ | ⟨hz, rfl⟩⟩ := awaitSuspend_cases hs
  · exact ha.claim (a := { a with phase := .woken }) hu
  · have habs : (s.suspended id a).closed = true → False := fun hcl => by
      rw [show (s.suspended id a).closed = s.closed from rfl, hopen] at hcl
      cases hcl
    refine ⟨fun h => ?_, fun hcl => (habs hcl).elim, fun hcl => (habs hcl).elim⟩
    by_cases hh : h = a.half
    · subst hh
      exact Or.inr (Or.inr hz)
    · have hp : (s.suspended id a).parked h = s.parked h := Function.update_of_ne hh _ _
      rcases ha.served h with hf | hnil | hz'
      · exact Or.inl hf
      · exact Or.inr (Or.inl (hp.trans hnil))
      · exact Or.inr (Or.inr hz')

theorem Awake.unlink (ha : Awake s) (id : ℕ) : Awake (s.unlink id) := by
  have hnil : ∀ h, s.parked h = [] → (s.unlink id).parked h = [] := fun h hp => by
    simp [State.unlink, hp]
  refine ⟨fun h => ?_, fun hcl => hnil _ (ha.detached.readers hcl), fun hcl => ?_⟩
  · rcases ha.served h with hf | hp | hz
    · exact Or.inl (List.mem_map.2 ⟨_, hf, rfl⟩)
    · exact Or.inr (Or.inl (hnil h hp))
    · exact Or.inr (Or.inr hz)
  · rcases ha.detached.writers hcl with hp | ⟨r, hr⟩
    · exact Or.inl (hnil .write hp)
    · exact Or.inr ⟨r.erase id, List.mem_map.2 ⟨_, hr, rfl⟩⟩

theorem Awake.destroy (hi : Inv limit s) (ha : Awake s) {id : ℕ} {a : Awaiter T}
    (hid : s.awaiters.lookup id = some a) (hs : s.destroy id a = .ok t) : Awake t := by
  have hu := ha.unlink id
  have hd : Awake (s.destroyed id a) := by
    rcases destroyed_cases s id a with he | ⟨-, he⟩
    all_goals
      rw [he]
      exact ⟨hu.served, hu.detached.readers, hu.detached.writers⟩
  rcases destroy_cases hs with ⟨-, rfl⟩ | ⟨hcl, hw⟩
  · exact hd
  · obtain ⟨hl, hc, hlim⟩ := hi.destroyed hid
    rw [hcl] at hc
    refine Awake.wakeAwaiters (s := (s.destroyed id a).settle a.half 1)
      ⟨hl, hc.settle, hlim⟩ (fun h hh => ?_) ⟨hd.detached.readers, hd.detached.writers⟩ hw
    refine (hd.served h).imp_right (Or.imp_right fun hz => ?_)
    have hcount : ((s.destroyed id a).settle a.half 1).unclaimedCount h =
        (s.destroyed id a).unclaimedCount h :=
      unclaimedCount_congr rfl rfl rfl (Function.update_of_ne hh _ _)
    exact hcount.trans hz

/-- The step lemma. -/
theorem Awake.step (hi : Inv limit s) (ha : Awake s) {act : Action T}
    (hs : step s act = .ok t) : Awake t := by
  cases act with
  | newReceive r => cases hs; exact ha.newAwaiter _
  | newSend w => cases hs; exact ha.newAwaiter _
  | awaitSuspend id =>
    obtain ⟨a, -, hs⟩ := withAwaiter_eq_ok hs
    exact ha.awaitSuspend hs
  | awaitResume id =>
    obtain ⟨a, hid, hs⟩ := withAwaiter_eq_ok hs
    obtain ⟨hph, -, ht⟩ := awaitResume_cases hs
    have hnot := hi.linked.notMem_of_phase hid (by rcases hph with h | h <;> simp [h])
    refine Awake.transfer (s := s.setAwaiter id { a with claimed := false, phase := .done })
      ⟨ha.served, ha.detached.readers, ha.detached.writers⟩
      (hi.linked.replace (hi.linked.lt hid) hnot fun h => by cases h)
      (hi.counted.clear hid rfl) ?_ ht
    split_ifs <;> omega
  | awaitCancel id =>
    obtain ⟨a, -, hs⟩ := withAwaiter_eq_ok hs
    obtain ⟨-, rfl⟩ := awaitCancel_cases hs
    have hu := ha.unlink id
    exact ⟨hu.served, hu.detached.readers, hu.detached.writers⟩
  | destroy id =>
    obtain ⟨a, hid, hs⟩ := withAwaiter_eq_ok hs
    exact ha.destroy hi hid hs
  | tryReceive r => exact ha.tryTransfer hi (.inl r) hs
  | trySend w => exact ha.tryTransfer hi (.inr w) hs
  | close => exact awake_close hs
  | resumeReturns => exact ha.resumeReturns hi hs

/-- The run lemma. -/
theorem awake_of_reach (hr : Reach step anyAction (newChannel limit) s) : Awake s := by
  refine hr.invariant_of (J := Inv limit) (fun _ => inv_of_reach) ?_
    fun _ _ _ hi ha _ hs => ha.step hi hs
  cases limit <;>
    exact ⟨fun _ => Or.inr (Or.inl rfl), fun _ => rfl, fun _ => Or.inl rfl⟩

/-! ### Between operations -/

theorem readTransfer_of_size_eq_zero (h₀ : s.size = 0) (r : Recv) :
    s.readTransfer 0 r = .ok (r.failure, s) := by
  rw [State.readTransfer.eq_def, if_neg (Nat.not_lt_zero _)]
  cases r with
  | one => simp [State.readOne, h₀, Recv.failure, Except.map]
  | into n => simp [State.readBulk, h₀, Recv.failure, Except.map]
  | range forward len => simp [State.readBulk, h₀, Recv.failure, Except.map]

theorem writeTransfer_of_space_eq_zero (hb : s.bounded = true) (h₀ : s.space = 0)
    (w : Send T) : s.writeTransfer 0 w = .ok (w.failure, s) := by
  rw [State.writeTransfer.eq_def, if_neg (Nat.not_lt_zero _)]
  cases w with
  | one x => simp [State.writeOne, h₀, Send.failure, Except.map]
  | iter ra xs | range ra xs =>
    simp [State.writeBulk, State.avail, hb, h₀, Send.failure, Except.map]

/-- Nobody is parked on a closed channel when no call is in progress. -/
theorem Detached.open_of_parked (hd : Detached s) (hq : s.frames = []) {h : Half}
    (hp : s.parked h ≠ []) : s.closed = false := by
  by_contra hcl
  rw [Bool.not_eq_false] at hcl
  cases h with
  | read => exact hp (hd.readers hcl)
  | write =>
    rcases hd.writers hcl with hnil | ⟨r, hr⟩
    · exact hp hnil
    · rw [hq] at hr; cases hr

theorem Awake.unclaimedCount_eq_zero (ha : Awake s) (hq : s.frames = []) {h : Half}
    (hp : s.parked h ≠ []) : s.unclaimedCount h = 0 := by
  rcases ha.served h with hf | hnil | hz
  · rw [hq] at hf; cases hf
  · exact absurd hnil hp
  · exact hz

/-- While an awaiter of a half is parked, a new one gets no claim and parks behind it. -/
theorem queue_behind_parked {h : Half} (hz : s.unclaimedCount h = 0) :
    (∀ args : Recv ⊕ Send T, (⟨args, false, .constructed⟩ : Awaiter T).half = h →
      (s.newAwaiter args).claims = s.claims) ∧
    (∀ id a t, a.half = h → s.awaitSuspend id a = .ok t →
      t.claims = s.claims ∧ t.parked h = s.parked h ++ [id]) := by
  constructor
  · intro args hh
    obtain ⟨a, rfl, ⟨hu, -, -⟩ | ⟨-, he⟩⟩ := newAwaiter_cases s args
    · exact absurd (hh ▸ hz) hu
    · rw [he]; rfl
  · rintro id a t rfl hs
    obtain ⟨-, -, -, -, ⟨hu, -⟩ | ⟨-, rfl⟩⟩ := awaitSuspend_cases hs
    · exact absurd hz hu
    · exact ⟨rfl, Function.update_self _ _ _⟩

/-- In every state between operations: where a reader is parked nothing is unclaimed and the
channel is open, and the same for a writer.  Nobody can overtake a parked awaiter: a
non-blocking call of its half fails, and a new awaiter queues behind it. -/
theorem parked_only_if_exhausted (hr : Reach step anyAction (newChannel limit) s)
    (hq : s.frames = []) :
    (s.parked .read ≠ [] → s.size = 0 ∧ s.closed = false ∧
      ∀ r, step s (.tryReceive r) = .ok (s.record (.received none r.failure))) ∧
    (s.parked .write ≠ [] → s.space = 0 ∧ s.closed = false ∧
      ∀ w, step s (.trySend w) = .ok (s.record (.sent none w w.failure))) ∧
    (∀ h, s.parked h ≠ [] →
      (∀ args : Recv ⊕ Send T, (⟨args, false, .constructed⟩ : Awaiter T).half = h →
        (s.newAwaiter args).claims = s.claims) ∧
      (∀ id a t, a.half = h → s.awaitSuspend id a = .ok t →
        t.claims = s.claims ∧ t.parked h = s.parked h ++ [id])) := by
  have ha := awake_of_reach hr
  refine ⟨fun hp => ?_, fun hp => ?_, fun h hp => ?_⟩
  · have hz : s.size = 0 := ha.unclaimedCount_eq_zero hq hp
    refine ⟨hz, ha.detached.open_of_parked hq hp, fun r => ?_⟩
    simp only [step, State.transfer, readTransfer_of_size_eq_zero hz r, Except.map]
  · have hz : s.space = 0 := ha.unclaimedCount_eq_zero hq hp
    have hopen := ha.detached.open_of_parked hq hp
    -- An open unbounded channel always has space.
    have hb : s.bounded = true := by
      by_contra hb
      rw [space_of_unbounded hopen (by simpa using hb)] at hz
      norm_num [sizeMax] at hz
    refine ⟨hz, hopen, fun w => ?_⟩
    simp only [step, State.transfer, writeTransfer_of_space_eq_zero hb hz w, Except.map]
  · exact queue_behind_parked (ha.unclaimedCount_eq_zero hq hp)

/-- A reader parks on an empty channel. -/
def oneReader : List (Action ℕ) := [.newReceive .one, .awaitSuspend 0]

theorem parked_only_if_exhausted_oneReader :
    ∃ s, exec step (newChannel none) oneReader = .ok s ∧
      s.frames = [] ∧ s.parked .read = [0] ∧ s.size = 0 ∧ s.closed = false := by
  refine ⟨_, rfl, rfl, rfl, ?_⟩
  have h := (parked_only_if_exhausted (reach_of_run (s := newChannel none) (l := oneReader) rfl)
    rfl).1 (by decide)
  exact ⟨h.1, h.2.1⟩

end Corral.Channel
