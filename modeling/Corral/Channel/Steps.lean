import Corral.Channel.Model

/-!
# `Channel`: what one call can do

One lemma for each function of the model, saying everything a successful call can have done.
The invariants of the later files are derived from these and never unfold the functions.

* `wakeAwaiters_cases`, `unparkWriters_cases`, `unparkReaders_cases`: the loops either end or
  stop at the `resume()` of one awaiter;
* `readTransfer_cases`, `writeTransfer_cases`: every overload of `tryTransfer()` either reports
  failure and leaves the channel alone, or moves a non-empty list of objects, settles the claim
  and wakes the other half;
* `newAwaiter_cases` to `resumeReturns_cases`: the entry points of the awaiters.
-/

namespace Corral.Channel

open Registry ActionMachine

variable {T : Type*}

/-! ### `size_t` arithmetic -/

theorem sizeSub_of_le {a b : ℕ} (h : b ≤ a) : sizeSub a b = a - b := if_pos h

theorem size_of_le {s : State T} (h : s.claims .read ≤ s.buf.size) :
    s.size = s.buf.size - s.claims .read := sizeSub_of_le h

theorem space_of_closed {s : State T} (h : s.closed = true) : s.space = 0 := by
  simp [State.space, h]

theorem space_of_unbounded {s : State T} (hc : s.closed = false) (hb : s.bounded = false) :
    s.space = sizeMax := by
  simp [State.space, hc, hb]

theorem space_of_bounded {s : State T} (hc : s.closed = false) (hb : s.bounded = true)
    (h : s.buf.size + s.claims .write ≤ s.buf.capacity) :
    s.space = s.buf.capacity - s.buf.size - s.claims .write := by
  have h₁ : sizeSub s.buf.capacity s.buf.size = s.buf.capacity - s.buf.size :=
    sizeSub_of_le s.buf.size_le_capacity
  simp only [State.space, hc, hb, h₁, if_true, Bool.false_eq_true, if_false]
  exact sizeSub_of_le (by omega)

/-! ### What an operation moved -/

/-- The objects that a receive handed out. -/
def RecvResult.values : RecvResult T → List T
  | .one x => x.toList
  | .into out => out
  | .range out => out

/-- The objects that a send accepted, by what it returned. -/
def Send.accepted : Send T → SendResult → List T
  | .one x, .one true => [x]
  | .iter _ xs, .iter n => xs.take n
  | .range _ xs, .range n => xs.take n
  | _, _ => []

/-- What a receive returns when it hands out nothing. -/
def Recv.failure : Recv → RecvResult T
  | .one => .one none
  | .into _ => .into []
  | .range _ _ => .range []

/-- What a send returns when it accepts nothing. -/
def Send.failure : Send T → SendResult
  | .one _ => .one false
  | .iter _ _ => .iter 0
  | .range _ _ => .range 0

/-! ### The loops -/

/-- The state in which a `wakeAwaiters()` loop leaves the channel when it resumes the awaiter
`id`. -/
def State.woken (s : State T) (h : Half) (id : ℕ) (rest : List ℕ) (a : Awaiter T) : State T :=
  { s.claim id { a with phase := .woken } with
    parked := Function.update s.parked h rest
    frames := .wake h :: s.frames }

/-- The state in which an `unparkAll()` loop leaves the channel when it resumes the awaiter
`id`. -/
def State.unparked (s : State T) (h : Half) (id : ℕ) (rest : List ℕ) (a : Awaiter T) : State T :=
  { s.setAwaiter id { a with phase := .woken } with frames := .unpark h rest :: s.frames }

theorem wakeAwaiters_cases {s t : State T} {h : Half} (hs : s.wakeAwaiters h = .ok t) :
    (t = s ∧ (s.unclaimedCount h = 0 ∨ s.parked h = [])) ∨
    (∃ id rest a, s.unclaimedCount h ≠ 0 ∧ s.parked h = id :: rest ∧
      s.awaiters.lookup id = some a ∧ a.claimed = false ∧ t = s.woken h id rest a) := by
  unfold State.wakeAwaiters at hs
  split_ifs at hs with hu
  · cases hs; exact Or.inl ⟨rfl, Or.inl hu⟩
  · split at hs
    · rename_i hp
      cases hs
      exact Or.inl ⟨rfl, Or.inr hp⟩
    · rename_i id rest hp
      split at hs
      · cases hs
      · rename_i a ha
        split_ifs at hs with hc
        cases hs
        exact Or.inr ⟨id, rest, a, hu, hp, ha, by simpa using hc, rfl⟩

theorem unparkWriters_cases {s t : State T} {l : List ℕ} (hs : s.unparkWriters l = .ok t) :
    (l = [] ∧ t = s) ∨
    (∃ id rest a, l = id :: rest ∧ s.awaiters.lookup id = some a ∧
      t = s.unparked .write id rest a) := by
  cases l with
  | nil => cases hs; exact Or.inl ⟨rfl, rfl⟩
  | cons id rest =>
    simp only [State.unparkWriters] at hs
    split at hs
    · cases hs
    · rename_i a ha
      cases hs
      exact Or.inr ⟨id, rest, a, rfl, ha, rfl⟩

/-- The state in which `close()` starts on the write half. -/
def State.writersDetached (s : State T) : State T :=
  { s with parked := Function.update s.parked .write [] }

/-- The state in which `close()` starts on the read half. -/
def State.readersDetached (s : State T) : State T :=
  { s with closed := true, parked := Function.update s.parked .read [] }

theorem parked_writersDetached (s : State T) : s.writersDetached.parked .write = [] := by
  simp [State.writersDetached]

theorem parked_readersDetached (s : State T) : s.readersDetached.parked .read = [] := by
  simp [State.readersDetached]

theorem unparkReaders_cases {s t : State T} {l : List ℕ} (hs : s.unparkReaders l = .ok t) :
    (l = [] ∧ s.writersDetached.unparkWriters (s.parked .write) = .ok t) ∨
    (∃ id rest a, l = id :: rest ∧ s.awaiters.lookup id = some a ∧
      t = s.unparked .read id rest a) := by
  cases l with
  | nil => exact Or.inl ⟨rfl, hs⟩
  | cons id rest =>
    simp only [State.unparkReaders] at hs
    split at hs
    · cases hs
    · rename_i a ha
      cases hs
      exact Or.inr ⟨id, rest, a, rfl, ha, rfl⟩

/-! ### Transfers -/

theorem readOne_cases {s t : State T} {c : ℕ} {x : Option T} (hs : s.readOne c = .ok (x, t)) :
    (t = s ∧ x = none ∧ c = 0) ∨
    (∃ buf y, x = some y ∧ 1 ≤ c + s.size ∧ s.buf.contents = y :: buf.contents ∧
      buf.capacity = s.buf.capacity ∧ (s.taken c buf).wakeAwaiters .write = .ok t) := by
  unfold State.readOne at hs
  split_ifs at hs with h₀ hb
  · cases hs; exact Or.inl ⟨rfl, rfl, h₀.1⟩
  · obtain ⟨u, hu, he⟩ := map_eq_ok.1 hs
    cases he
    exact Or.inr ⟨_, _, rfl, by omega, s.buf.contents_eq_popFront hb,
      s.buf.capacity_popFront hb, hu⟩

theorem readBulk_cases {s t : State T} {c n : ℕ} {out : List T}
    (hs : s.readBulk c n = .ok (out, t)) :
    (t = s ∧ out = [] ∧ n = 0) ∨
    (∃ buf, out ≠ [] ∧ out.length = n ∧ s.buf.contents = out ++ buf.contents ∧
      buf.capacity = s.buf.capacity ∧ (s.taken c buf).wakeAwaiters .write = .ok t) := by
  unfold State.readBulk at hs
  split_ifs at hs with h₀ h₁ hn
  · cases hs; exact Or.inl ⟨rfl, rfl, h₀⟩
  · have hlen := s.buf.length_popFrontTo hn
    have hcont := s.buf.contents_eq_popFrontTo hn
    have hcap := s.buf.capacity_popFrontTo hn
    rcases hr : s.buf.popFrontTo n hn with ⟨out', buf⟩
    simp only [hr] at hs hlen hcont hcap
    obtain ⟨u, hu, he⟩ := map_eq_ok.1 hs
    obtain ⟨rfl, rfl⟩ := Prod.mk.injEq .. ▸ he
    refine Or.inr ⟨buf, ?_, hlen, hcont, hcap, hu⟩
    intro hnil
    exact h₀ (by simpa [hnil] using hlen.symm)

theorem readTransfer_cases {s t : State T} {c : ℕ} {r : Recv} {res : RecvResult T}
    (hs : s.readTransfer c r = .ok (res, t)) :
    c ≤ s.claims .read ∧
    ((t = s ∧ res.values = [] ∧ (c = 0 ∨ r.isNoop = true)) ∨
    (∃ buf, res.values ≠ [] ∧ res.values.length ≤ c + s.size ∧
      s.buf.contents = res.values ++ buf.contents ∧ buf.capacity = s.buf.capacity ∧
      (s.taken c buf).wakeAwaiters .write = .ok t)) := by
  unfold State.readTransfer at hs
  by_cases hc : s.claims .read < c
  · rw [if_pos hc] at hs; cases hs
  rw [if_neg hc] at hs
  refine ⟨Nat.le_of_not_lt hc, ?_⟩
  cases r with
  | one =>
    obtain ⟨⟨x, u⟩, hu, he⟩ := map_eq_ok.1 hs
    cases he
    rcases readOne_cases hu with ⟨ht, rfl, hc₀⟩ | ⟨buf, y, rfl, hle, hcont, hcap, hw⟩
    · exact Or.inl ⟨ht, rfl, Or.inl hc₀⟩
    · exact Or.inr ⟨buf, by simp [RecvResult.values], hle, hcont, hcap, hw⟩
  | into n =>
    obtain ⟨⟨out, u⟩, hu, he⟩ := map_eq_ok.1 hs
    cases he
    rcases readBulk_cases hu with ⟨ht, hout, hn⟩ | ⟨buf, hne, hlen, hcont, hcap, hw⟩
    · refine Or.inl ⟨ht, hout, ?_⟩
      rcases Nat.eq_zero_or_pos n with rfl | hpos
      · exact Or.inr rfl
      · exact Or.inl (by omega)
    · exact Or.inr ⟨buf, hne, hlen.trans_le (min_le_right _ _), hcont, hcap, hw⟩
  | range forward len =>
    obtain ⟨⟨out, u⟩, hu, he⟩ := map_eq_ok.1 hs
    cases he
    rcases readBulk_cases hu with ⟨ht, hout, hn⟩ | ⟨buf, hne, hlen, hcont, hcap, hw⟩
    · refine Or.inl ⟨ht, hout, ?_⟩
      rcases Nat.eq_zero_or_pos len with rfl | hpos
      · exact Or.inr rfl
      · left; split_ifs at hn <;> omega
    · refine Or.inr ⟨buf, hne, hlen.trans_le ?_, hcont, hcap, hw⟩
      split_ifs <;> omega

theorem pushLoop_spec (buf : Queue T) (avail : ℕ) (xs : List T) :
    (pushLoop buf avail xs).2 = min xs.length avail ∧
    (pushLoop buf avail xs).1.contents = buf.contents ++ xs.take (min xs.length avail) ∧
    (buf.size + min xs.length avail ≤ buf.capacity →
      (pushLoop buf avail xs).1.capacity = buf.capacity) := by
  induction xs generalizing buf avail with
  | nil => simp [pushLoop]
  | cons x xs ih =>
    rcases Nat.eq_zero_or_pos avail with rfl | hpos
    · simp [pushLoop]
    · obtain ⟨h₁, h₂, h₃⟩ := ih (buf.pushBack x) (avail - 1)
      have hmin : min (x :: xs).length avail = min xs.length (avail - 1) + 1 := by
        rw [List.length_cons]; omega
      simp only [pushLoop, if_neg (Nat.pos_iff_ne_zero.1 hpos)]
      rw [h₁, h₂, hmin, List.take_succ_cons]
      refine ⟨rfl, by simp, fun hle => ?_⟩
      have hlt : buf.size < buf.capacity := by omega
      have hcap := Queue.capacity_pushBack hlt x
      have hsize : (buf.pushBack x).size = buf.size + 1 := by simp [Queue.size_eq]
      rw [h₃ (by omega), hcap]

/-- Both iterator categories add the same objects. -/
theorem addRange_spec (buf : Queue T) (avail : ℕ) (ra : Bool) (xs : List T) :
    (addRange buf avail ra xs).2 = min xs.length avail ∧
    (addRange buf avail ra xs).1.contents = buf.contents ++ xs.take (min xs.length avail) ∧
    (buf.size + min xs.length avail ≤ buf.capacity →
      (addRange buf avail ra xs).1.capacity = buf.capacity) := by
  cases ra with
  | false => exact pushLoop_spec buf avail xs
  | true =>
    refine ⟨rfl, Queue.contents_append _ _, fun hle => Queue.capacity_append ?_⟩
    rw [List.length_take]
    omega

theorem writeOne_cases {s t : State T} {c : ℕ} {x : T} {b : Bool}
    (hs : s.writeOne c x = .ok (b, t)) :
    (t = s ∧ b = false ∧ c = 0) ∨
    (b = true ∧ 1 ≤ c + s.space ∧ s.closed = false ∧
      (s.put c (s.buf.pushBack x)).wakeAwaiters .read = .ok t) := by
  unfold State.writeOne at hs
  split_ifs at hs with h₀ h₁
  · cases hs; exact Or.inl ⟨rfl, rfl, h₀.1⟩
  · obtain ⟨u, hu, he⟩ := map_eq_ok.1 hs
    cases he
    simp only [Bool.or_eq_true, not_or, Bool.not_eq_true] at h₁
    exact Or.inr ⟨rfl, by omega, h₁.1, hu⟩

theorem writeBulk_cases {s t : State T} {c n : ℕ} {ra : Bool} {xs : List T}
    (hs : s.writeBulk c ra xs = .ok (n, t)) :
    (t = s ∧ n = 0 ∧ (xs = [] ∨ s.avail c = 0)) ∨
    (∃ buf, xs.take n ≠ [] ∧ (xs.take n).length ≤ s.avail c ∧ s.closed = false ∧
      buf.contents = s.buf.contents ++ xs.take n ∧
      (s.buf.size + (xs.take n).length ≤ s.buf.capacity → buf.capacity = s.buf.capacity) ∧
      (s.put c buf).wakeAwaiters .read = .ok t) := by
  unfold State.writeBulk at hs
  split_ifs at hs with h₀ h₁ h₂
  · cases hs; exact Or.inl ⟨rfl, rfl, Or.inl (by simpa using h₀)⟩
  · cases hs; exact Or.inl ⟨rfl, rfl, Or.inr h₁⟩
  · obtain ⟨hm, hcont, hcap⟩ := addRange_spec s.buf (s.avail c) ra xs
    rcases hr : addRange s.buf (s.avail c) ra xs with ⟨buf, m⟩
    simp only [hr] at hs hm hcont hcap
    obtain ⟨u, hu, he⟩ := map_eq_ok.1 hs
    obtain ⟨rfl, rfl⟩ := Prod.mk.injEq .. ▸ he
    simp only [Bool.or_eq_true, not_or, Bool.not_eq_true] at h₂
    have hpos : 0 < xs.length := List.length_pos_iff.2 (by simpa using h₀)
    have hlen : (xs.take (min xs.length (s.avail c))).length = min xs.length (s.avail c) := by
      rw [List.length_take]; omega
    rw [hm]
    refine Or.inr ⟨buf, ?_, hlen.trans_le (min_le_right _ _), h₂.1, hcont, ?_, hu⟩
    · rw [← List.length_pos_iff]; omega
    · rw [hlen]; exact hcap

theorem writeTransfer_cases {s t : State T} {c : ℕ} {w : Send T} {res : SendResult}
    (hs : s.writeTransfer c w = .ok (res, t)) :
    c ≤ s.claims .write ∧
    ((t = s ∧ res = w.failure ∧ (c = 0 ∨ w.isNoop = true)) ∨
    (∃ buf, w.accepted res ≠ [] ∧ (s.bounded = true → (w.accepted res).length ≤ c + s.space) ∧
      s.closed = false ∧ buf.contents = s.buf.contents ++ w.accepted res ∧
      (s.buf.size + (w.accepted res).length ≤ s.buf.capacity →
        buf.capacity = s.buf.capacity) ∧
      (s.put c buf).wakeAwaiters .read = .ok t)) := by
  unfold State.writeTransfer at hs
  by_cases hc : s.claims .write < c
  · rw [if_pos hc] at hs; cases hs
  rw [if_neg hc] at hs
  refine ⟨Nat.le_of_not_lt hc, ?_⟩
  have havail : s.avail c = 0 → c = 0 := by
    have hmax : sizeMax ≠ 0 := by norm_num [sizeMax]
    unfold State.avail
    split_ifs
    · omega
    · exact fun h => absurd h hmax
  have hbound : s.bounded = true → s.avail c = c + s.space := fun hb => by
    simp [State.avail, hb]
  cases w with
  | one x =>
    obtain ⟨⟨b, u⟩, hu, he⟩ := map_eq_ok.1 hs
    cases he
    rcases writeOne_cases hu with ⟨ht, rfl, hc₀⟩ | ⟨rfl, hle, hcl, hw⟩
    · exact Or.inl ⟨ht, rfl, Or.inl hc₀⟩
    · refine Or.inr ⟨s.buf.pushBack x, by simp [Send.accepted], fun _ => hle, hcl,
        Queue.contents_pushBack _ _, fun hlt => ?_, hw⟩
      exact Queue.capacity_pushBack (by simpa [Send.accepted] using hlt) x
  | iter ra xs | range ra xs =>
    obtain ⟨⟨n, u⟩, hu, he⟩ := map_eq_ok.1 hs
    cases he
    rcases writeBulk_cases hu with ⟨ht, rfl, hn⟩ | ⟨buf, hne, hlen, hcl, hcont, hcap, hw⟩
    · refine Or.inl ⟨ht, rfl, ?_⟩
      rcases hn with rfl | hn
      · exact Or.inr rfl
      · exact Or.inl (havail hn)
    · exact Or.inr ⟨buf, hne, fun hb => hbound hb ▸ hlen, hcl, hcont, hcap, hw⟩

/-! ### Awaiters -/

/-- The state with one more identity handed out. -/
def State.issued (s : State T) : State T := { s with nextId := s.nextId + 1 }

/-- The state in which the awaiter `id` is suspended. -/
def State.suspended (s : State T) (id : ℕ) (a : Awaiter T) : State T :=
  { s.setAwaiter id { a with phase := .parked } with
    parked := Function.update s.parked a.half (s.parked a.half ++ [id]) }

/-- The state without the awaiter `id`. -/
def State.without (s : State T) (id : ℕ) : State T :=
  { s.unlink id with awaiters := s.awaiters.erase id }

/-- The state in which the awaiter `id` is destroyed, before its claim is given back. -/
def State.destroyed (s : State T) (id : ℕ) (a : Awaiter T) : State T :=
  if a.phase = .cancelled ∨ a.phase = .done then s.without id
  else (s.without id).record (.cancelled id)

/-- Destroying an awaiter that has neither finished nor been cancelled is recorded. -/
theorem destroyed_cases (s : State T) (id : ℕ) (a : Awaiter T) :
    s.destroyed id a = s.without id ∨
    ((a.phase ≠ .cancelled ∧ a.phase ≠ .done) ∧
      s.destroyed id a = (s.without id).record (.cancelled id)) := by
  unfold State.destroyed
  split_ifs with hp
  · exact Or.inl rfl
  · exact Or.inr ⟨not_or.1 hp, rfl⟩

theorem newAwaiter_cases (s : State T) (args : Recv ⊕ Send T) :
    ∃ a : Awaiter T, a = ⟨args, false, .constructed⟩ ∧
      ((s.unclaimedCount a.half ≠ 0 ∧ a.isNoop = false ∧
          s.newAwaiter args = s.issued.claim s.nextId a) ∨
        ((s.unclaimedCount a.half = 0 ∨ a.isNoop = true) ∧
          s.newAwaiter args = s.issued.setAwaiter s.nextId a)) := by
  refine ⟨_, rfl, ?_⟩
  simp only [State.newAwaiter]
  split_ifs with h
  · exact Or.inl ⟨Nat.pos_iff_ne_zero.1 h.1, h.2, rfl⟩
  · refine Or.inr ⟨?_, rfl⟩
    rw [not_and_or, Nat.not_lt, Nat.le_zero, Bool.not_eq_false] at h
    exact h

theorem awaitSuspend_cases {s t : State T} {id : ℕ} {a : Awaiter T}
    (hs : s.awaitSuspend id a = .ok t) :
    a.phase = .constructed ∧ a.claimed = false ∧ s.closed = false ∧ a.isNoop = false ∧
    ((s.unclaimedCount a.half ≠ 0 ∧ t = s.claim id { a with phase := .woken }) ∨
      (s.unclaimedCount a.half = 0 ∧ t = s.suspended id a)) := by
  unfold State.awaitSuspend at hs
  by_cases hp : a.phase ≠ .constructed ∨ s.ready a
  · rw [if_pos hp] at hs; cases hs
  rw [if_neg hp] at hs
  simp only [State.ready, ne_eq, Bool.or_eq_true, not_or, not_not, Bool.not_eq_true] at hp
  obtain ⟨hph, ⟨hcl, hclosed⟩, hnoop⟩ := hp
  refine ⟨hph, hcl, hclosed, hnoop, ?_⟩
  split_ifs at hs with h₁ h₂
  · cases hs; exact Or.inl ⟨Nat.pos_iff_ne_zero.1 h₂, rfl⟩
  · cases hs; exact Or.inr ⟨by omega, rfl⟩

theorem awaitResume_cases {s t : State T} {id : ℕ} {a : Awaiter T}
    (hs : s.awaitResume id a = .ok t) :
    (a.phase = .woken ∨ a.phase = .constructed) ∧ s.ready a = true ∧
    (s.setAwaiter id { a with claimed := false, phase := .done }).transfer (some id)
      (if a.claimed then 1 else 0) a.args = .ok t := by
  unfold State.awaitResume at hs
  by_cases hp : ¬ (a.phase = .woken ∨ a.phase = .constructed ∧ s.ready a)
  · rw [if_pos hp] at hs; cases hs
  rw [if_neg hp] at hs
  cases hr : s.ready a with
  | false => rw [if_pos hr] at hs; cases hs
  | true =>
    rw [if_neg (by simp [hr])] at hs
    exact ⟨(not_not.1 hp).imp_right And.left, rfl, hs⟩

theorem awaitCancel_cases {s t : State T} {id : ℕ} {a : Awaiter T}
    (hs : s.awaitCancel id a = .ok t) :
    a.phase = .parked ∧
      t = ((s.unlink id).setAwaiter id { a with phase := .cancelled }).record (.cancelled id) := by
  unfold State.awaitCancel at hs
  split_ifs at hs with h
  cases hs
  exact ⟨not_not.1 h, rfl⟩

theorem destroy_cases {s t : State T} {id : ℕ} {a : Awaiter T} (hs : s.destroy id a = .ok t) :
    (a.claimed = false ∧ t = s.destroyed id a) ∨
    (a.claimed = true ∧ ((s.destroyed id a).settle a.half 1).wakeAwaiters a.half = .ok t) := by
  have heq : s.destroy id a = if a.claimed then
      ((s.destroyed id a).settle a.half 1).wakeAwaiters a.half else .ok (s.destroyed id a) := rfl
  rw [heq] at hs
  cases hc : a.claimed with
  | false => rw [hc] at hs; cases hs; exact Or.inl ⟨rfl, rfl⟩
  | true => rw [hc] at hs; exact Or.inr ⟨rfl, hs⟩

theorem withAwaiter_eq_ok {s t : State T} {id : ℕ} {f : Awaiter T → Except Fault (State T)}
    (hs : s.withAwaiter id f = .ok t) : ∃ a, s.awaiters.lookup id = some a ∧ f a = .ok t := by
  unfold State.withAwaiter at hs
  split at hs
  · cases hs
  · rename_i a ha
    exact ⟨a, ha, hs⟩

theorem resumeReturns_cases {s t : State T} (hs : s.resumeReturns = .ok t) :
    (∃ h fs, s.frames = .wake h :: fs ∧ { s with frames := fs }.wakeAwaiters h = .ok t) ∨
    (∃ rest fs, s.frames = .unpark .read rest :: fs ∧
      { s with frames := fs }.unparkReaders rest = .ok t) ∨
    (∃ rest fs, s.frames = .unpark .write rest :: fs ∧
      { s with frames := fs }.unparkWriters rest = .ok t) := by
  unfold State.resumeReturns at hs
  split at hs
  · cases hs
  · exact Or.inl ⟨_, _, ‹_›, hs⟩
  · exact Or.inr (Or.inl ⟨_, _, ‹_›, hs⟩)
  · exact Or.inr (Or.inr ⟨_, _, ‹_›, hs⟩)

end Corral.Channel
