import Corral.Channel.Steps

/-!
# `Channel`: the claims

The counters `claims_` of the two halves are exact, and nothing is promised twice: there is an
object in the buffer for every claimed reader, and on a bounded channel a free slot for every
claimed writer.

* `Linked`: the awaiters in the lists of the channel are live, suspended and without a claim,
  and no awaiter is in two places;
* `Counted owed`: the counters agree with the claim bits of the live awaiters, up to the claims
  `owed` by an `await_resume()` that has cleared its bit and not yet settled;
* `Inv`: both, with the bound that the constructor fixed; `Inv.step` is the step lemma and
  `inv_of_reach` the run lemma;
* `claims_backed`: what this says about the counters.
-/

namespace Corral.Channel

open Registry ActionMachine

variable {T : Type*}

/-! ### The lists of the channel -/

def Frame.waiting (h : Half) : Frame → List ℕ
  | .wake _ => []
  | .unpark h' rest => if h' = h then rest else []

/-- The awaiters of half `h` that are linked into a list: the parked ones, and those in the local
lists of the `unparkAll()` loops in progress. -/
def State.waiting (s : State T) (h : Half) : List ℕ :=
  s.parked h ++ s.frames.flatMap (Frame.waiting h)

/-- What a linked awaiter of half `h` looks like. -/
structure Awaiter.Waits (a : Awaiter T) (h : Half) : Prop where
  half : a.half = h
  unclaimed : a.claimed = false
  needs : a.isNoop = false
  phase : a.phase = .parked

/-- An awaiter with a claim needs it, and is not suspended. -/
def Awaiter.ClaimOk (a : Awaiter T) : Prop :=
  a.claimed = true → a.isNoop = false ∧ (a.phase = .constructed ∨ a.phase = .woken)

/-- The lists `w` and the registry `r` of awaiters agree; `n` is the next identity. -/
structure Linked (w : Half → List ℕ) (r : Reg ℕ (Awaiter T)) (n : ℕ) : Prop where
  waits : ∀ h, ∀ id ∈ w h, ∃ a, r.lookup id = some a ∧ a.Waits h
  nodup : ∀ h, (w h).Nodup
  fresh : ∀ id, n ≤ id → r.lookup id = none
  claimOk : ∀ id a, r.lookup id = some a → a.ClaimOk

namespace Linked

variable {w w' : Half → List ℕ} {r : Reg ℕ (Awaiter T)} {n : ℕ}

theorem lt (hl : Linked w r n) {id : ℕ} {a : Awaiter T} (ha : r.lookup id = some a) : id < n := by
  by_contra hn
  rw [hl.fresh id (Nat.le_of_not_lt hn)] at ha
  cases ha

theorem sublist (hl : Linked w r n) (hs : ∀ h, (w' h).Sublist (w h)) : Linked w' r n :=
  ⟨fun h id hid => hl.waits h id ((hs h).subset hid), fun h => (hl.nodup h).sublist (hs h),
    hl.fresh, hl.claimOk⟩

/-- An awaiter that does not look like a linked one is in no list. -/
theorem notMem_of_phase (hl : Linked w r n) {id : ℕ} {a : Awaiter T} (ha : r.lookup id = some a)
    (hp : a.phase ≠ .parked) (h : Half) : id ∉ w h := by
  intro hid
  obtain ⟨b, hb, hw⟩ := hl.waits h id hid
  rw [ha] at hb
  cases hb
  exact hp hw.phase

/-- An unlinked awaiter may change as long as its claim stays in order. -/
theorem replace (hl : Linked w r n) {id : ℕ} {a' : Awaiter T} (hid : id < n)
    (hnot : ∀ h, id ∉ w h) (hok : a'.ClaimOk) : Linked w (r.insert id a') n := by
  refine ⟨fun h k hk => ?_, hl.nodup, fun k hk => ?_, fun k b hb => ?_⟩
  · obtain ⟨b, hb, hw⟩ := hl.waits h k hk
    have hne : k ≠ id := fun he => hnot h (he ▸ hk)
    exact ⟨b, by rw [lookup_insert_eq, if_neg hne, hb], hw⟩
  · rw [lookup_insert_eq, if_neg (by omega)]
    exact hl.fresh k hk
  · rw [lookup_insert_eq] at hb
    split_ifs at hb
    · cases hb; exact hok
    · exact hl.claimOk k b hb

/-- A new awaiter takes the next identity. -/
theorem register (hl : Linked w r n) {a' : Awaiter T} (hok : a'.ClaimOk) :
    Linked w (r.insert n a') (n + 1) := by
  have hl' : Linked w r (n + 1) :=
    ⟨hl.waits, hl.nodup, fun k hk => hl.fresh k (by omega), hl.claimOk⟩
  refine hl'.replace (Nat.lt_succ_self n) (fun h hn => ?_) hok
  obtain ⟨b, hb, -⟩ := hl.waits h n hn
  rw [hl.fresh n le_rfl] at hb
  cases hb

theorem erase (hl : Linked w r n) {id : ℕ} (hnot : ∀ h, id ∉ w h) :
    Linked w (r.erase id) n := by
  refine ⟨fun h k hk => ?_, hl.nodup, fun k hk => ?_, fun k b hb => ?_⟩
  · obtain ⟨b, hb, hw⟩ := hl.waits h k hk
    have hne : k ≠ id := fun he => hnot h (he ▸ hk)
    exact ⟨b, by rw [lookup_erase_eq, if_neg hne, hb], hw⟩
  · rw [lookup_erase_eq]
    split_ifs
    · rfl
    · exact hl.fresh k hk
  · rw [lookup_erase_eq] at hb
    split_ifs at hb
    exact hl.claimOk k b hb

/-- Suspending an awaiter links it into the list of its half. -/
theorem park (hl : Linked w r n) {h : Half} {id : ℕ} {a' : Awaiter T} (hid : id < n)
    (hnot : ∀ h, id ∉ w h) (hw : a'.Waits h)
    (hperm : ∀ h', (w' h').Perm (if h' = h then id :: w h' else w h')) :
    Linked w' (r.insert id a') n := by
  have hl' : Linked w (r.insert id a') n :=
    hl.replace hid hnot fun hc => by rw [hw.unclaimed] at hc; cases hc
  refine ⟨fun h' k hk => ?_, fun h' => ?_, hl'.fresh, hl'.claimOk⟩
  · have hk' := (hperm h').subset hk
    split_ifs at hk' with hh
    · rcases List.mem_cons.1 hk' with rfl | hk''
      · exact ⟨a', AList.lookup_insert _, hh ▸ hw⟩
      · exact hl'.waits h' k hk''
    · exact hl'.waits h' k hk'
  · refine (hperm h').nodup_iff.2 ?_
    split_ifs
    · exact List.nodup_cons.2 ⟨hnot h', hl.nodup h'⟩
    · exact hl.nodup h'

/-- An awaiter that is taken out of its list is in no list any more. -/
theorem pop (hl : Linked w r n) {h : Half} {id : ℕ} (l₁ : List ℕ) {l₂ : List ℕ}
    (hw : w h = l₁ ++ id :: l₂) (hw' : w' = Function.update w h (l₁ ++ l₂)) :
    Linked w' r n ∧ ∀ h', id ∉ w' h' := by
  subst hw'
  have hnd := hl.nodup h
  rw [hw, List.nodup_middle, List.nodup_cons] at hnd
  constructor
  · refine hl.sublist fun h' => ?_
    by_cases hh : h' = h
    · subst hh
      rw [Function.update_self, hw]
      exact (List.sublist_cons_self id l₂).append_left l₁
    · rw [Function.update_of_ne hh]
  · -- It was once in its own list, and in no list of the other half.
    intro h' hid
    by_cases hh : h' = h
    · subst hh; rw [Function.update_self] at hid; exact hnd.1 hid
    · rw [Function.update_of_ne hh] at hid
      obtain ⟨a, ha, hwa⟩ := hl.waits h' id hid
      obtain ⟨b, hb, hwb⟩ := hl.waits h id (by simp [hw])
      rw [ha] at hb
      cases hb
      exact hh (hwa.half.symm.trans hwb.half)

end Linked

/-! ### The census of the claims -/

/-- The awaiter is of half `h` and its claim bit is set. -/
def Awaiter.holds (h : Half) (a : Awaiter T) : Bool := a.claimed && decide (a.half = h)

theorem Awaiter.holds_of_unclaimed {a : Awaiter T} (ha : a.claimed = false) (h : Half) :
    a.holds h = false := by
  simp [Awaiter.holds, ha]

/-- What is known of the record of an awaiter is known of every record found under its identity. -/
theorem unclaimed_of_lookup {r : Reg ℕ (Awaiter T)} {id : ℕ} {a : Awaiter T}
    (ha : r.lookup id = some a) (hcl : a.claimed = false) (b : Awaiter T)
    (hb : r.lookup id = some b) : b.claimed = false := by
  rw [ha] at hb
  cases hb
  exact hcl

/-- The number of live awaiters of half `h` whose claim bit is set. -/
def State.holders (s : State T) (h : Half) : ℕ := count (Awaiter.holds h) s.awaiters

/-- `c` claims of half `h` are owed, and none of the other half. -/
def owes (h : Half) (c : ℕ) : Half → ℕ := Function.update (fun _ => 0) h c

/-- The share of one awaiter in the census is what it owes. -/
theorem Awaiter.ite_holds (a : Awaiter T) (h : Half) :
    (if a.holds h then 1 else 0) = owes a.half (if a.claimed then 1 else 0) h := by
  rw [owes, Function.update_apply]
  by_cases hh : h = a.half
  · simp [Awaiter.holds, hh]
  · have hh' : a.half ≠ h := fun he => hh he.symm
    simp [Awaiter.holds, hh, hh']

/-- The counters are exact up to `owed`, and nothing is promised twice. -/
structure Counted (owed : Half → ℕ) (s : State T) : Prop where
  claims_eq : ∀ h, s.claims h = s.holders h + owed h
  claims_read_le : s.claims .read ≤ s.buf.size
  claims_write_le : s.bounded = true → s.buf.size + s.claims .write ≤ s.buf.capacity

namespace Counted

variable {owed : Half → ℕ} {s : State T}

theorem lt_of_unclaimed_read (hc : Counted owed s) (hu : s.unclaimedCount .read ≠ 0) :
    s.claims .read + 1 ≤ s.buf.size := by
  rw [State.unclaimedCount, size_of_le hc.claims_read_le] at hu
  omega

theorem lt_of_unclaimed_write (hc : Counted owed s) (hu : s.unclaimedCount .write ≠ 0)
    (hb : s.bounded = true) : s.buf.size + s.claims .write + 1 ≤ s.buf.capacity := by
  cases hcl : s.closed with
  | true => exact absurd (space_of_closed hcl) hu
  | false =>
    rw [State.unclaimedCount, space_of_bounded hcl hb (hc.claims_write_le hb)] at hu
    omega

/-- Claiming an unclaimed object or slot, by an awaiter that holds no claim. -/
theorem claim (hc : Counted owed s) (id : ℕ) {a : Awaiter T}
    (hu : s.unclaimedCount a.half ≠ 0)
    (hold : ∀ b, s.awaiters.lookup id = some b → b.claimed = false) :
    Counted owed (s.claim id a) := by
  have hhold : ∀ h, (s.claim id a).holders h = s.holders h + if a.half = h then 1 else 0 := by
    intro h
    have hcount := count_insert_of_not (Awaiter.holds h) (r := s.awaiters) (k := id)
      { a with claimed := true } (fun b hb => Awaiter.holds_of_unclaimed (hold b hb) h)
    rw [State.holders, State.holders, State.claim, hcount]
    congr 1
    exact if_congr decide_eq_true_iff rfl rfl
  refine ⟨fun h => ?_, ?_, fun hb => ?_⟩
  · rw [hhold h]
    have := hc.claims_eq h
    simp only [State.claim, Function.update_apply]
    split_ifs with h₁ h₂ h₂
    · subst h₁; omega
    · exact absurd h₁.symm h₂
    · exact absurd h₂.symm h₁
    · omega
  · simp only [State.claim, Function.update_apply]
    split_ifs with h₁
    · rw [← h₁] at hu ⊢
      exact hc.lt_of_unclaimed_read hu
    · exact hc.claims_read_le
  · simp only [State.claim, Function.update_apply]
    split_ifs with h₁
    · rw [← h₁] at hu ⊢
      have := hc.lt_of_unclaimed_write hu hb
      omega
    · exact hc.claims_write_le hb

/-- Exchanging the record of an awaiter without a claim. -/
theorem setAwaiter (hc : Counted owed s) (id : ℕ) (a' : Awaiter T) (ha' : a'.claimed = false)
    (hold : ∀ b, s.awaiters.lookup id = some b → b.claimed = false) :
    Counted owed (s.setAwaiter id a') := by
  refine ⟨fun h => ?_, hc.claims_read_le, hc.claims_write_le⟩
  have hcount := count_insert_of_not (Awaiter.holds h) (r := s.awaiters) (k := id) a'
    (fun b hb => Awaiter.holds_of_unclaimed (hold b hb) h)
  rw [Awaiter.holds_of_unclaimed ha' h] at hcount
  exact (hc.claims_eq h).trans (by rw [State.holders, State.holders, State.setAwaiter, hcount]; rfl)

/-- What `await_resume()` owes once it has cleared the claim bit. -/
theorem clear (hc : Counted (fun _ => 0) s) {id : ℕ} {a a' : Awaiter T}
    (ha : s.awaiters.lookup id = some a) (ha' : a'.claimed = false) :
    Counted (owes a.half (if a.claimed then 1 else 0)) (s.setAwaiter id a') := by
  refine ⟨fun h => ?_, hc.claims_read_le, hc.claims_write_le⟩
  have hcount := count_insert (Awaiter.holds h) a' ha
  rw [Awaiter.holds_of_unclaimed ha' h, a.ite_holds h] at hcount
  exact (hc.claims_eq h).trans hcount.symm

/-- What the destructor owes once the awaiter is no longer among the live ones. -/
theorem eraseAwaiter (hc : Counted (fun _ => 0) s) {id : ℕ} {a : Awaiter T}
    (ha : s.awaiters.lookup id = some a) :
    Counted (owes a.half (if a.claimed then 1 else 0))
      { s with awaiters := s.awaiters.erase id } := by
  refine ⟨fun h => ?_, hc.claims_read_le, hc.claims_write_le⟩
  have hcount := count_erase (Awaiter.holds h) ha
  rw [a.ite_holds h] at hcount
  exact (hc.claims_eq h).trans hcount.symm

/-- Settling what is owed. -/
theorem settle {h : Half} {c : ℕ} (hc : Counted (owes h c) s) :
    Counted (fun _ => 0) (s.settle h c) := by
  have hle : ∀ h', (s.settle h c).claims h' ≤ s.claims h' := by
    intro h'
    simp only [State.settle, Function.update_apply]
    split_ifs with hh
    · subst hh; exact Nat.sub_le _ _
    · exact le_rfl
  refine ⟨fun h' => ?_, (hle .read).trans hc.claims_read_le, fun hb => ?_⟩
  · have heq := hc.claims_eq h'
    have hsame : (s.settle h c).holders h' = s.holders h' := rfl
    simp only [owes, Function.update_apply] at heq
    rw [hsame]
    simp only [State.settle, Function.update_apply]
    split_ifs at heq ⊢ with hh
    · subst hh; omega
    · exact heq
  · exact le_trans (Nat.add_le_add_left (hle .write) _) (hc.claims_write_le hb)

/-- A receive of at most the claimed and the unclaimed objects keeps the promises to the other
readers. -/
theorem taken {c k : ℕ} (hc : Counted (owes .read c) s) (hle : c ≤ s.claims .read)
    {buf : Queue T} (hk : k ≤ c + s.size) (hsize : s.buf.size = k + buf.size)
    (hcap : buf.capacity = s.buf.capacity) : Counted (fun _ => 0) (s.taken c buf) := by
  have hread := hc.claims_read_le
  rw [size_of_le hread] at hk
  have hs := hc.settle
  refine ⟨hs.claims_eq, ?_, fun hb => ?_⟩
  · show (Function.update s.claims .read (s.claims .read - c)) .read ≤ buf.size
    rw [Function.update_self]
    omega
  · have hw := hs.claims_write_le hb
    show buf.size + (s.settle .read c).claims .write ≤ buf.capacity
    have hw' : s.buf.size + (s.settle .read c).claims .write ≤ s.buf.capacity := hw
    omega

/-- A send of at most the claimed and the unclaimed slots keeps the promises to the other
writers. -/
theorem put {c k : ℕ} (hc : Counted (owes .write c) s) (hle : c ≤ s.claims .write)
    (hclosed : s.closed = false) {buf : Queue T} (hk : s.bounded = true → k ≤ c + s.space)
    (hsize : buf.size = s.buf.size + k)
    (hcap : s.buf.size + k ≤ s.buf.capacity → buf.capacity = s.buf.capacity) :
    Counted (fun _ => 0) (s.put c buf) := by
  have hs := hc.settle
  refine ⟨hs.claims_eq, ?_, fun hb => ?_⟩
  · have hr : (s.settle .write c).claims .read ≤ s.buf.size := hs.claims_read_le
    show (s.settle .write c).claims .read ≤ buf.size
    omega
  · have hw := hc.claims_write_le hb
    have hk' := hk hb
    rw [space_of_bounded hclosed hb hw] at hk'
    show buf.size + (Function.update s.claims .write (s.claims .write - c)) .write ≤ buf.capacity
    rw [Function.update_self, hcap (by omega)]
    omega

end Counted

/-! ### The invariant -/

/-- A channel as its constructors leave it, with or without a bound. -/
def newChannel : Option ℕ → State T
  | none => unboundedChannel
  | some maxSize => boundedChannel maxSize

/-- The bound of a channel. -/
def State.limit (s : State T) : Option ℕ := if s.bounded then some s.buf.capacity else none

/-- The invariant of a channel whose constructor fixed the bound `limit`. -/
structure Inv (limit : Option ℕ) (s : State T) : Prop where
  linked : Linked s.waiting s.awaiters s.nextId
  counted : Counted (fun _ => 0) s
  limit_eq : s.limit = limit

section Run

variable {limit : Option ℕ} {s t : State T}

theorem inv_newChannel (limit : Option ℕ) : Inv limit (newChannel limit : State T) := by
  cases limit with
  | none =>
    refine ⟨⟨?_, ?_, ?_, ?_⟩, ⟨?_, ?_, ?_⟩, ?_⟩ <;>
      simp [newChannel, unboundedChannel, State.waiting, State.holders, State.limit]
  | some maxSize =>
    refine ⟨⟨?_, ?_, ?_, ?_⟩, ⟨?_, ?_, ?_⟩, ?_⟩ <;>
      simp [newChannel, boundedChannel, State.waiting, State.holders, State.limit]

theorem Inv.record (hi : Inv limit s) (e : Event T) : Inv limit (s.record e) :=
  ⟨hi.linked, ⟨hi.counted.claims_eq, hi.counted.claims_read_le, hi.counted.claims_write_le⟩,
    hi.limit_eq⟩

theorem waiting_cons_of_parked {h : Half} {id : ℕ} {rest : List ℕ}
    (hp : s.parked h = id :: rest) :
    s.waiting h = id :: (rest ++ s.frames.flatMap (Frame.waiting h)) := by
  rw [State.waiting, hp, List.cons_append]

theorem waiting_woken (h : Half) (id : ℕ) (rest : List ℕ) (a : Awaiter T) :
    (s.woken h id rest a).waiting =
      Function.update s.waiting h (rest ++ s.frames.flatMap (Frame.waiting h)) := by
  funext h'
  simp only [State.woken, State.waiting, State.claim, List.flatMap_cons, Frame.waiting,
    List.nil_append, Function.update_apply]
  split_ifs with hh
  · subst hh; rfl
  · rfl

/-- Waking an awaiter hands it a claim. -/
theorem Inv.woken (hi : Inv limit s) {h : Half} {id : ℕ} {rest : List ℕ} {a : Awaiter T}
    (hu : s.unclaimedCount h ≠ 0) (hp : s.parked h = id :: rest)
    (ha : s.awaiters.lookup id = some a) : Inv limit (s.woken h id rest a) := by
  have hw := waiting_cons_of_parked hp
  obtain ⟨b, hb, hwaits⟩ := hi.linked.waits h id (hw ▸ List.mem_cons_self)
  rw [ha] at hb
  cases hb
  obtain ⟨hl, hnot⟩ := hi.linked.pop [] hw (waiting_woken h id rest a)
  have hold := unclaimed_of_lookup ha hwaits.unclaimed
  refine ⟨hl.replace (hl.lt ha) hnot fun _ => ⟨hwaits.needs, Or.inr rfl⟩, ?_, hi.limit_eq⟩
  have hc := hi.counted.claim id (a := { a with phase := .woken }) (hwaits.half ▸ hu) hold
  exact ⟨hc.claims_eq, hc.claims_read_le, hc.claims_write_le⟩

theorem Inv.wakeAwaiters (hi : Inv limit s) {h : Half} (hs : s.wakeAwaiters h = .ok t) :
    Inv limit t := by
  rcases wakeAwaiters_cases hs with ⟨rfl, -⟩ | ⟨id, rest, a, hu, hp, ha, -, rfl⟩
  · exact hi
  · exact hi.woken hu hp ha

/-- A loop that is about to look at its local list stands on the stack like one that waits. -/
def State.enter (s : State T) (f : Frame) : State T := { s with frames := f :: s.frames }

theorem enter_frames {f : Frame} {fs : List Frame} (hf : s.frames = f :: fs) :
    { s with frames := fs }.enter f = s := by
  rw [State.enter, ← hf]

theorem waiting_unparked (h : Half) (id : ℕ) (rest : List ℕ) (a : Awaiter T) :
    (s.unparked h id rest a).waiting =
      Function.update (s.enter (.unpark h (id :: rest))).waiting h
        (s.parked h ++ (rest ++ s.frames.flatMap (Frame.waiting h))) := by
  funext h'
  by_cases hh : h' = h
  · subst hh
    simp [State.unparked, State.waiting, State.setAwaiter, Frame.waiting]
  · have hh' : h ≠ h' := fun he => hh he.symm
    simp [State.unparked, State.enter, State.waiting, State.setAwaiter, Frame.waiting, hh, hh']

/-- Unparking an awaiter hands it no claim. -/
theorem Inv.unparked {h : Half} {id : ℕ} {rest : List ℕ} {a : Awaiter T}
    (hi : Inv limit (s.enter (.unpark h (id :: rest))))
    (ha : s.awaiters.lookup id = some a) : Inv limit (s.unparked h id rest a) := by
  have hw : (s.enter (.unpark h (id :: rest))).waiting h =
      s.parked h ++ id :: (rest ++ s.frames.flatMap (Frame.waiting h)) := by
    simp [State.enter, State.waiting, Frame.waiting]
  obtain ⟨b, hb, hwaits⟩ := hi.linked.waits h id (by simp [hw])
  have hab : a = b := Option.some.inj (ha.symm.trans hb)
  subst hab
  obtain ⟨hl, hnot⟩ := hi.linked.pop _ hw (waiting_unparked h id rest a)
  have hold := unclaimed_of_lookup ha hwaits.unclaimed
  have hok : ({ a with phase := .woken } : Awaiter T).ClaimOk :=
    fun _ => ⟨hwaits.needs, Or.inr rfl⟩
  have hc := hi.counted.setAwaiter id { a with phase := .woken } hwaits.unclaimed hold
  exact ⟨hl.replace (hl.lt ha) hnot hok,
    ⟨hc.claims_eq, hc.claims_read_le, hc.claims_write_le⟩, hi.limit_eq⟩

/-- Moving the lists about without changing them, and closing the channel, keep the invariant. -/
theorem Inv.relink {u : State T} (hi : Inv limit s) (hw : ∀ h, u.waiting h = s.waiting h)
    (hb : u.bounded = s.bounded) (hbuf : u.buf = s.buf) (hcl : u.claims = s.claims)
    (haw : u.awaiters = s.awaiters) (hn : u.nextId = s.nextId) : Inv limit u := by
  have hww : u.waiting = s.waiting := funext hw
  obtain ⟨hl, hc, hcap⟩ := hi
  refine ⟨by rwa [hww, haw, hn], ⟨fun h => ?_, ?_, ?_⟩, ?_⟩
  · rw [hcl, State.holders, haw]; exact hc.claims_eq h
  · rw [hcl, hbuf]; exact hc.claims_read_le
  · rw [hcl, hbuf, hb]; exact hc.claims_write_le
  · rwa [State.limit, hb, hbuf]

theorem Inv.unparkWriters {l : List ℕ} (hi : Inv limit (s.enter (.unpark .write l)))
    (hs : s.unparkWriters l = .ok t) : Inv limit t := by
  rcases unparkWriters_cases hs with ⟨rfl, rfl⟩ | ⟨id, rest, a, rfl, ha, rfl⟩
  · exact hi.relink (fun h => by simp [State.enter, State.waiting, Frame.waiting])
      rfl rfl rfl rfl rfl
  · exact hi.unparked ha

theorem Inv.unparkReaders {l : List ℕ} (hi : Inv limit (s.enter (.unpark .read l)))
    (hs : s.unparkReaders l = .ok t) : Inv limit t := by
  rcases unparkReaders_cases hs with ⟨rfl, hw⟩ | ⟨id, rest, a, rfl, ha, rfl⟩
  · refine Inv.unparkWriters (s := s.writersDetached)
      (hi.relink (fun h => ?_) rfl rfl rfl rfl rfl) hw
    cases h <;> simp [State.enter, State.writersDetached, State.waiting, Frame.waiting]
  · exact hi.unparked ha

theorem Inv.close (hi : Inv limit s) (hs : s.close = .ok t) : Inv limit t := by
  refine Inv.unparkReaders (s := s.readersDetached) ?_ hs
  refine hi.relink (fun h => ?_) rfl rfl rfl rfl rfl
  cases h <;> simp [State.enter, State.readersDetached, State.waiting, Frame.waiting]

theorem Inv.resumeReturns (hi : Inv limit s) (hs : s.resumeReturns = .ok t) :
    Inv limit t := by
  unfold State.resumeReturns at hs
  split at hs
  · cases hs
  · rename_i h fs hf
    refine Inv.wakeAwaiters (s := { s with frames := fs })
      (hi.relink (fun h => ?_) rfl rfl rfl rfl rfl) hs
    simp [State.waiting, hf, Frame.waiting]
  · rename_i rest fs hf
    exact Inv.unparkReaders ((enter_frames hf).symm ▸ hi) hs
  · rename_i rest fs hf
    exact Inv.unparkWriters ((enter_frames hf).symm ▸ hi) hs

/-! ### Transfers -/

/-- Only an awaiter with something to transfer holds a claim. -/
theorem eq_zero_of_noop {c : ℕ} {noop : Bool} (hneeds : c ≠ 0 → noop = false)
    (hno : c = 0 ∨ noop = true) : c = 0 := by
  by_contra hne
  rcases hno with h₀ | hnoop
  · exact hne h₀
  · rw [hneeds hne] at hnoop
    cases hnoop

/-- A receive that has taken objects settles what its awaiter owes. -/
theorem Inv.taken {c k : ℕ} {buf : Queue T} (hl : Linked s.waiting s.awaiters s.nextId)
    (hc : Counted (owes .read c) s) (hcap : s.limit = limit) (hle : c ≤ s.claims .read)
    (hk : k ≤ c + s.size) (hsize : s.buf.size = k + buf.size)
    (hbuf : buf.capacity = s.buf.capacity) : Inv limit (s.taken c buf) := by
  refine ⟨hl, hc.taken hle hk hsize hbuf, ?_⟩
  have hlimit : (s.taken c buf).limit = s.limit := by
    simp [State.limit, State.taken, State.settle, hbuf]
  exact hlimit.trans hcap

/-- A send that has added objects settles what its awaiter owes. -/
theorem Inv.put {c k : ℕ} {buf : Queue T} (hl : Linked s.waiting s.awaiters s.nextId)
    (hc : Counted (owes .write c) s) (hcap : s.limit = limit) (hle : c ≤ s.claims .write)
    (hopen : s.closed = false) (hk : s.bounded = true → k ≤ c + s.space)
    (hsize : buf.size = s.buf.size + k)
    (hbuf : s.buf.size + k ≤ s.buf.capacity → buf.capacity = s.buf.capacity) :
    Inv limit (s.put c buf) := by
  refine ⟨hl, hc.put hle hopen hk hsize hbuf, ?_⟩
  have hlimit : (s.put c buf).limit = s.limit := by
    cases hb : s.bounded with
    | false => simp [State.limit, State.put, State.settle, hb]
    | true =>
      -- the objects fit, so a bounded buffer is not reallocated
      have hfit := hc.claims_write_le hb
      have hk' := hk hb
      rw [space_of_bounded hopen hb hfit] at hk'
      simp [State.limit, State.put, State.settle, hb, hbuf (by omega)]
  exact hlimit.trans hcap

/-- A receive settles what its awaiter owes. -/
theorem Inv.readTransfer {c : ℕ} {r : Recv} {res : RecvResult T}
    (hl : Linked s.waiting s.awaiters s.nextId) (hc : Counted (owes .read c) s)
    (hcap : s.limit = limit) (hneeds : c ≠ 0 → r.isNoop = false)
    (hs : s.readTransfer c r = .ok (res, t)) : Inv limit t := by
  obtain ⟨hle, ⟨rfl, -, hno⟩ | ⟨buf, -, hlen, hcont, hbuf, hw⟩⟩ := readTransfer_cases hs
  · have hc₀ := eq_zero_of_noop hneeds hno
    subst hc₀
    refine ⟨hl, ?_, hcap⟩
    simpa [owes] using hc
  · have hsize : s.buf.size = res.values.length + buf.size := by
      rw [Queue.size_eq, Queue.size_eq, hcont, List.length_append]
    exact (Inv.taken hl hc hcap hle hlen hsize hbuf).wakeAwaiters hw

/-- A send settles what its awaiter owes. -/
theorem Inv.writeTransfer {c : ℕ} {w : Send T} {res : SendResult}
    (hl : Linked s.waiting s.awaiters s.nextId) (hc : Counted (owes .write c) s)
    (hcap : s.limit = limit) (hneeds : c ≠ 0 → w.isNoop = false)
    (hs : s.writeTransfer c w = .ok (res, t)) : Inv limit t := by
  obtain ⟨hle, ⟨rfl, -, hno⟩ | ⟨buf, -, hlen, hopen, hcont, hbuf, hw⟩⟩ := writeTransfer_cases hs
  · have hc₀ := eq_zero_of_noop hneeds hno
    subst hc₀
    refine ⟨hl, ?_, hcap⟩
    simpa [owes] using hc
  · have hsize : buf.size = s.buf.size + (w.accepted res).length := by
      rw [Queue.size_eq, Queue.size_eq, hcont, List.length_append]
    exact (Inv.put hl hc hcap hle hopen hlen hsize hbuf).wakeAwaiters hw

theorem Inv.transfer {who : Option ℕ} {a : Awaiter T} {c : ℕ}
    (hl : Linked s.waiting s.awaiters s.nextId) (hc : Counted (owes a.half c) s)
    (hcap : s.limit = limit) (hneeds : c ≠ 0 → a.isNoop = false)
    (hs : s.transfer who c a.args = .ok t) : Inv limit t := by
  rcases a with ⟨r | w, cl, ph⟩
  · obtain ⟨⟨res, u⟩, hu, rfl⟩ := map_eq_ok.1 hs
    exact (Inv.readTransfer hl hc hcap hneeds hu).record _
  · obtain ⟨⟨res, u⟩, hu, rfl⟩ := map_eq_ok.1 hs
    exact (Inv.writeTransfer hl hc hcap hneeds hu).record _

theorem Inv.tryTransfer (hi : Inv limit s) (args : Recv ⊕ Send T)
    (hs : s.transfer none 0 args = .ok t) : Inv limit t := by
  refine Inv.transfer (a := ⟨args, false, .constructed⟩) hi.linked ?_ hi.limit_eq
    (fun hne => absurd rfl hne) hs
  simpa [owes] using hi.counted

/-! ### Awaiters -/

theorem Inv.newAwaiter (hi : Inv limit s) (args : Recv ⊕ Send T) :
    Inv limit (s.newAwaiter args) := by
  have hold : ∀ b, s.awaiters.lookup s.nextId = some b → b.claimed = false := by
    intro b hb
    rw [hi.linked.fresh s.nextId le_rfl] at hb
    cases hb
  obtain ⟨a, rfl, ⟨hu, hno, he⟩ | ⟨-, he⟩⟩ := newAwaiter_cases s args
  · have hc := hi.counted.claim s.nextId hu hold
    rw [he]
    exact ⟨hi.linked.register fun _ => ⟨hno, Or.inl rfl⟩,
      ⟨hc.claims_eq, hc.claims_read_le, hc.claims_write_le⟩, hi.limit_eq⟩
  · have hc := hi.counted.setAwaiter s.nextId ⟨args, false, .constructed⟩
      rfl hold
    rw [he]
    exact ⟨hi.linked.register (fun h => by cases h),
      ⟨hc.claims_eq, hc.claims_read_le, hc.claims_write_le⟩, hi.limit_eq⟩

theorem Inv.awaitSuspend (hi : Inv limit s) {id : ℕ} {a : Awaiter T}
    (ha : s.awaiters.lookup id = some a) (hs : s.awaitSuspend id a = .ok t) :
    Inv limit t := by
  obtain ⟨hph, hcl, -, hno, ht⟩ := awaitSuspend_cases hs
  have hold := unclaimed_of_lookup ha hcl
  have hnot := hi.linked.notMem_of_phase ha (by simp [hph])
  have hlt := hi.linked.lt ha
  rcases ht with ⟨hu, rfl⟩ | ⟨-, rfl⟩
  · exact ⟨hi.linked.replace hlt hnot fun _ => ⟨hno, Or.inr rfl⟩,
      hi.counted.claim id (a := { a with phase := .woken }) hu hold, hi.limit_eq⟩
  · have hc := hi.counted.setAwaiter id { a with phase := .parked } hcl hold
    refine ⟨hi.linked.park (h := a.half) hlt hnot ⟨rfl, hcl, hno, rfl⟩ fun h => ?_,
      ⟨hc.claims_eq, hc.claims_read_le, hc.claims_write_le⟩, hi.limit_eq⟩
    simp only [State.waiting, State.suspended, State.setAwaiter, Function.update_apply]
    by_cases hh : h = a.half
    · subst hh
      rw [if_pos rfl, if_pos rfl, List.append_assoc]
      exact List.perm_middle
    · rw [if_neg hh, if_neg hh]

theorem waiting_frame_unlink (id : ℕ) (h : Half) (f : Frame) :
    (f.unlink id).waiting h = (f.waiting h).erase id := by
  cases f with
  | wake h' => rfl
  | unpark h' rest =>
    simp only [Frame.unlink, Frame.waiting]
    split_ifs <;> rfl

/-- Unlinking an awaiter takes it out of every list. -/
theorem Inv.unlink (hi : Inv limit s) (id : ℕ) :
    Inv limit (s.unlink id) ∧ ∀ h, id ∉ (s.unlink id).waiting h := by
  have heq : ∀ h, (s.unlink id).waiting h =
      (s.parked h).erase id ++ s.frames.flatMap (fun f => (f.waiting h).erase id) := by
    intro h
    simp only [State.waiting, State.unlink, List.flatMap_map, waiting_frame_unlink]
  have hsub : ∀ h, ((s.unlink id).waiting h).Sublist (s.waiting h) := by
    intro h
    rw [heq h]
    exact List.erase_sublist.append
      (List.Sublist.flatMap_right s.frames fun f _ => List.erase_sublist)
  have hnot : ∀ h, id ∉ (s.unlink id).waiting h := by
    intro h hid
    obtain ⟨hp, hf, -⟩ := List.nodup_append.1 (hi.linked.nodup h)
    rw [heq h, List.mem_append, List.mem_flatMap] at hid
    rcases hid with hid | ⟨f, hfm, hid⟩
    · exact hp.not_mem_erase hid
    · exact ((List.nodup_flatMap.1 hf).1 f hfm).not_mem_erase hid
  exact ⟨⟨hi.linked.sublist hsub, ⟨hi.counted.claims_eq, hi.counted.claims_read_le,
    hi.counted.claims_write_le⟩, hi.limit_eq⟩, hnot⟩

theorem Inv.awaitResume (hi : Inv limit s) {id : ℕ} {a : Awaiter T}
    (ha : s.awaiters.lookup id = some a) (hs : s.awaitResume id a = .ok t) : Inv limit t := by
  obtain ⟨hph, -, ht⟩ := awaitResume_cases hs
  have hnot := hi.linked.notMem_of_phase ha (by rcases hph with h | h <;> simp [h])
  refine Inv.transfer (hi.linked.replace (hi.linked.lt ha) hnot fun h => by cases h)
    (hi.counted.clear ha rfl) hi.limit_eq (fun hne => ?_) ht
  cases hc : a.claimed with
  | false => rw [hc] at hne; exact absurd rfl hne
  | true => exact (hi.linked.claimOk id a ha hc).1

theorem Inv.awaitCancel (hi : Inv limit s) {id : ℕ} {a : Awaiter T}
    (ha : s.awaiters.lookup id = some a) (hs : s.awaitCancel id a = .ok t) : Inv limit t := by
  obtain ⟨hph, rfl⟩ := awaitCancel_cases hs
  have hcl : a.claimed = false := by
    by_contra hc
    have hok := (hi.linked.claimOk id a ha (by simpa using hc)).2
    rw [hph] at hok
    rcases hok with h | h <;> cases h
  obtain ⟨hi', hnot⟩ := hi.unlink id
  have hc := hi'.counted.setAwaiter id { a with phase := .cancelled } hcl
    (unclaimed_of_lookup ha hcl)
  have hok : ({ a with phase := .cancelled } : Awaiter T).ClaimOk := fun h => by
    rw [hcl] at h; cases h
  exact (Inv.mk (hi'.linked.replace (hi.linked.lt ha) hnot hok) hc hi.limit_eq).record _

theorem Inv.destroyed (hi : Inv limit s) {id : ℕ} {a : Awaiter T}
    (ha : s.awaiters.lookup id = some a) :
    Linked (s.destroyed id a).waiting (s.destroyed id a).awaiters (s.destroyed id a).nextId ∧
    Counted (owes a.half (if a.claimed then 1 else 0)) (s.destroyed id a) ∧
    (s.destroyed id a).limit = limit := by
  obtain ⟨hi', hnot⟩ := hi.unlink id
  have hc := hi'.counted.eraseAwaiter ha
  have hl := hi'.linked.erase hnot
  rcases destroyed_cases s id a with he | ⟨-, he⟩
  · rw [he]
    exact ⟨hl, hc, hi.limit_eq⟩
  · rw [he]
    exact ⟨hl, ⟨hc.claims_eq, hc.claims_read_le, hc.claims_write_le⟩, hi.limit_eq⟩

theorem Inv.destroy (hi : Inv limit s) {id : ℕ} {a : Awaiter T}
    (ha : s.awaiters.lookup id = some a) (hs : s.destroy id a = .ok t) : Inv limit t := by
  obtain ⟨hl, hc, hcap⟩ := hi.destroyed ha
  rcases destroy_cases hs with ⟨hcl, rfl⟩ | ⟨hcl, hw⟩
  · refine ⟨hl, ?_, hcap⟩
    simpa [owes, hcl] using hc
  · rw [hcl] at hc
    exact Inv.wakeAwaiters (s := (s.destroyed id a).settle a.half 1) ⟨hl, hc.settle, hcap⟩ hw

/-- The step lemma. -/
theorem Inv.step (hi : Inv limit s) {act : Action T} (hs : step s act = .ok t) :
    Inv limit t := by
  cases act with
  | newReceive r => cases hs; exact hi.newAwaiter _
  | newSend w => cases hs; exact hi.newAwaiter _
  | awaitSuspend id =>
    obtain ⟨a, ha, hs⟩ := withAwaiter_eq_ok hs
    exact hi.awaitSuspend ha hs
  | awaitResume id =>
    obtain ⟨a, ha, hs⟩ := withAwaiter_eq_ok hs
    exact hi.awaitResume ha hs
  | awaitCancel id =>
    obtain ⟨a, ha, hs⟩ := withAwaiter_eq_ok hs
    exact hi.awaitCancel ha hs
  | destroy id =>
    obtain ⟨a, ha, hs⟩ := withAwaiter_eq_ok hs
    exact hi.destroy ha hs
  | tryReceive r => exact hi.tryTransfer (.inl r) hs
  | trySend w => exact hi.tryTransfer (.inr w) hs
  | close => exact hi.close hs
  | resumeReturns => exact hi.resumeReturns hs

end Run

/-- The run lemma. -/
theorem inv_of_reach {limit : Option ℕ} {s : State T}
    (hr : Reach step anyAction (newChannel limit) s) : Inv limit s :=
  hr.invariant (inv_newChannel limit) fun _ _ _ hi _ hs => hi.step hs

/-- In every state of every run the counters are the number of claims that live awaiters hold,
and every claim is backed: neither `size()` nor `space()` wraps, and a bounded buffer stays
within its bound. -/
theorem claims_backed {limit : Option ℕ} {s : State T}
    (hr : Reach step anyAction (newChannel limit) s) :
    (∀ h, s.claims h = s.holders h) ∧
    s.claims .read ≤ s.buf.size ∧
    s.size + s.claims .read = s.buf.size ∧
    (∀ maxSize, limit = some maxSize →
      s.buf.capacity = maxSize ∧ s.buf.size + s.claims .write ≤ maxSize ∧
      (s.closed = false → s.space + s.claims .write + s.buf.size = maxSize)) := by
  have hi := inv_of_reach hr
  have hc := hi.counted
  refine ⟨hc.claims_eq, hc.claims_read_le, ?_, fun maxSize hm => ?_⟩
  · rw [size_of_le hc.claims_read_le]
    exact Nat.sub_add_cancel hc.claims_read_le
  · have hlim := hi.limit_eq.trans hm
    have hb : s.bounded = true := by
      by_contra hb
      simp [State.limit, hb] at hlim
    have hcap : s.buf.capacity = maxSize := by simpa [State.limit, hb] using hlim
    have hle := hc.claims_write_le hb
    refine ⟨hcap, hcap ▸ hle, fun hopen => ?_⟩
    rw [space_of_bounded hopen hb hle]
    omega

/-- Two writers claim the two slots; the first sends, and a reader claims its object. -/
def twoWriters : List (Action ℕ) :=
  [.newSend (.one 7), .newSend (.one 8), .awaitResume 0, .newReceive .one]

theorem claims_backed_twoWriters :
    ∃ s, exec step (newChannel (some 2)) twoWriters = .ok s ∧
      s.claims .write = 1 ∧ s.claims .read = 1 ∧ s.buf.size + s.claims .write ≤ 2 := by
  refine ⟨_, rfl, rfl, rfl, ?_⟩
  exact ((claims_backed (reach_of_run (s := newChannel (some 2)) (l := twoWriters) rfl)).2.2.2 2
    rfl).2.1

end Corral.Channel
