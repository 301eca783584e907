import Corral.Detail.QueueObjects

/-!
# `detail::Queue`: an addition that throws

`push_back()`, `emplace_back()` and `append()` may copy the objects of the queue into new storage,
one range after the other, and then construct the new ones, in two chunks if the free space is
fragmented.

* `Addition`: the calls that add objects;
* `Addition.InSecond q a k`: the constructor that throws after `k` others is one for the second range
  of `grow()`, or for the second chunk of `append()`;
* `Unharmed`: the queue holds what it held, and no object has been lost;
* `unharmed_iff`: the queue is unharmed if and only if the exception does not come from there.
-/

namespace Corral.QueueObjects

open ObjectStorage RawStorage RawQueue

variable {α : Type*}

/-- The calls that add objects to a queue. -/
inductive Addition (α : Type*)
  | pushBack (x : α)
  | emplaceBack (x : α)
  | append (xs : List α)

/-- The call. -/
def Addition.run (e : Account) (q : RawQueue α) : Addition α → Except Fault (Bool × Account × RawQueue α)
  | .pushBack x => QueueObjects.pushBack e q x
  | .emplaceBack x => QueueObjects.emplaceBack e q x
  | .append xs => QueueObjects.append e q xs

/-- The number of objects that are added. -/
def Addition.count : Addition α → ℕ
  | .pushBack _ => 1
  | .emplaceBack _ => 1
  | .append xs => xs.length

/-- The number of constructors that the call runs. -/
def Addition.copies (q : RawQueue α) (a : Addition α) : ℕ :=
  relocated q (q.capacity < q.size + a.count) + a.count

/-- The constructor that throws after `k` others is one for the second range of `grow()`, or for the
second chunk of `append()`. -/
def Addition.InSecond (q : RawQueue α) (a : Addition α) (k : ℕ) : Prop :=
  if q.capacity < q.size + a.count then q.firstRange.length ≤ k ∧ k < q.size
  else q.capacity < q.tail + a.count ∧ q.capacity - q.tail ≤ k

/-- The queue holds what it held before, and every object that has been constructed and not destroyed
is in it. -/
def Unharmed (before after : RawQueue α) (e : Account) : Prop :=
  after.contents = before.contents ∧ e.constructed = e.destroyed + after.size

/-! ### The two parts of a call -/

/-- The argument of `grow()`. -/
def Addition.request (q : RawQueue α) : Addition α → ℕ
  | .pushBack _ => 0
  | .emplaceBack _ => 0
  | .append xs => q.size + xs.length

/-- The part of the call after the capacity check. -/
def Addition.fit (e : Account) (q : RawQueue α) : Addition α → Except Fault (Bool × Account × RawQueue α)
  | .pushBack x => constructBack e q x
  | .emplaceBack x => constructBack e q x
  | .append xs => appendFit e q xs

theorem run_of_room {q : RawQueue α} {a : Addition α} (h : q.size + a.count ≤ q.capacity)
    (e : Account) : a.run e q = a.fit e q := by
  cases a with
  | pushBack x =>
    have hne : q.size ≠ q.capacity := by simp only [Addition.count] at h; omega
    simp [Addition.run, Addition.fit, QueueObjects.pushBack, Except.bind, hne]
  | emplaceBack x =>
    have hne : q.size ≠ q.capacity := by simp only [Addition.count] at h; omega
    simp [Addition.run, Addition.fit, QueueObjects.emplaceBack, Except.bind, hne]
  | append xs =>
    have hnot : ¬ q.capacity < q.size + xs.length := Nat.not_lt.2 h
    simp [Addition.run, Addition.fit, QueueObjects.append, Except.bind, hnot]

theorem run_of_full {q : RawQueue α} {a : Addition α} (hle : q.size ≤ q.capacity)
    (h : q.capacity < q.size + a.count) (e : Account) :
    a.run e q = (grow e q (a.request q)).bind fun r => if r.1 then a.fit r.2.1 r.2.2 else .ok r := by
  cases a with
  | pushBack x =>
    have heq : q.size = q.capacity := by simp only [Addition.count] at h; omega
    simp only [Addition.run, Addition.fit, Addition.request, QueueObjects.pushBack, if_pos heq]
  | emplaceBack x =>
    have heq : q.size = q.capacity := by simp only [Addition.count] at h; omega
    simp only [Addition.run, Addition.fit, Addition.request, QueueObjects.emplaceBack, if_pos heq]
  | append xs =>
    have hlt : q.capacity < q.size + xs.length := h
    simp only [Addition.run, Addition.fit, Addition.request, QueueObjects.append, if_pos hlt]

/-- A queue that is not empty has its oldest object in the first range. -/
theorem firstRange_pos {q : RawQueue α} {xs : List α} (h : Rep q xs) (hq : 0 < q.size) :
    0 < q.firstRange.length := by
  obtain ⟨x, xs, rfl⟩ := List.exists_cons_of_length_pos (h.size_eq ▸ hq)
  obtain ⟨as, bs, hb, hh⟩ := split_front h
  obtain ⟨as', bs', -, hfirst, -⟩ := layout h
  have hlt : q.head < q.capacity := by simp [capacity, hb, hh]
  have hlen := congrArg Prod.snd hfirst
  simp only [firstSpan, if_neg (show ¬ q.size = 0 by omega)] at hlen
  split_ifs at hlen <;> simp only at hlen <;> omega

/-- What `k` objects constructed and `d` destroyed mean for a queue that keeps its objects. -/
theorem unharmed_relocate {q q' : RawQueue α} {e : Account} {k d : ℕ}
    (hq : e.constructed = e.destroyed + q.size) (hc : q'.contents = q.contents)
    (hsize : q'.size = q.size) : Unharmed q q' ((e.construct k).destroy d) ↔ k = d := by
  simp only [Unharmed, hc, true_and, Account.construct, Account.destroy, hsize]
  omega

/-- A constructor throws in the part of the call after the capacity check. -/
theorem fit_threw {q : RawQueue α} {xs : List α} (h : Rep q xs) {e : Account} {k : ℕ}
    (a : Addition α) (hroom : q.size + a.count ≤ q.capacity) (hk : k < a.count)
    (he : e.copies = some k) (hq : e.constructed = e.destroyed + q.size) :
    ∃ e' q', a.fit e q = .ok (false, e', q') ∧
      (Unharmed q q' e' ↔ ¬ (q.capacity < q.tail + a.count ∧ q.capacity - q.tail ≤ k)) := by
  have htail := h.tail_lt
  have hback : ∀ x, a.count = 1 → ∃ e' q', constructBack e q x = .ok (false, e', q') ∧
      (Unharmed q q' e' ↔ ¬ (q.capacity < q.tail + a.count ∧ q.capacity - q.tail ≤ k)) := by
    intro x hone
    rw [hone] at hk hroom ⊢
    obtain rfl : k = 0 := by omega
    refine ⟨e, q, constructBack_threw h x (by omega) he, ?_⟩
    exact ⟨fun _ => by omega, fun _ => ⟨rfl, hq⟩⟩
  cases a with
  | pushBack x => exact hback x rfl
  | emplaceBack x => exact hback x rfl
  | append zs =>
    simp only [Addition.count] at hk hroom ⊢
    obtain ⟨b, hc, hcont⟩ := appendFit_threw h zs hroom he hk
    refine ⟨_, _, hc, ?_⟩
    rw [unharmed_relocate hq hcont rfl]
    have hpos : 0 < q.capacity - q.tail := by omega
    split_ifs with hfirst
    · simp only [true_iff]
      omega
    · constructor
      · intro
        omega
      · intro
        omega

/-- An addition that throws leaves the queue unharmed if and only if the exception comes neither from
the second range of `grow()` nor from the second chunk of `append()`. -/
theorem unharmed_iff (q : Queue α) (a : Addition α) {e : Account} {k : ℕ}
    (hq : e.constructed = e.destroyed + q.size) (he : e.copies = some k) (hk : k < a.copies q.raw) :
    ∃ e' q', a.run e q.raw = .ok (false, e', q') ∧
      (Unharmed q.raw q' e' ↔ ¬ a.InSecond q.raw k) := by
  have h := q.rep
  have hle : q.raw.size ≤ q.raw.capacity := h.size_le
  unfold Addition.InSecond
  unfold Addition.copies relocated at hk
  split_ifs at hk ⊢ with hfull
  · rw [run_of_full hle hfull]
    have hgrow : q.raw.size < max (max (a.request q.raw) 8) (q.raw.capacity * 2) := by
      cases a <;> simp only [Addition.request, Addition.count] at * <;> omega
    rcases Nat.lt_or_ge k q.raw.size with hlt | hge
    · -- the queue does not grow
      rw [grow_threw h hgrow he hlt]
      refine ⟨_, _, rfl, ?_⟩
      rw [unharmed_relocate hq rfl rfl]
      have hpos := firstRange_pos h (by omega)
      split_ifs with hfirst
      · simp only [true_iff]
        omega
      · constructor
        · intro
          omega
        · intro
          omega
    · -- the queue has grown, and is in one piece
      have hall : e.Allows q.raw.size := fun j hj => by rw [he] at hj; cases hj; exact hge
      have hrep := h.grow hgrow
      have hcap : (q.raw.grow (a.request q.raw)).capacity
          = max (max (a.request q.raw) 8) (q.raw.capacity * 2) := grow_capacity _ _
      have hsize : (q.raw.grow (a.request q.raw)).size = q.raw.size := rfl
      have htail : (q.raw.grow (a.request q.raw)).tail = q.raw.size := by
        rw [size_eq_ranges h]
        simp [RawQueue.grow, RawQueue.new]
      have hroom : q.raw.size + a.count ≤ max (max (a.request q.raw) 8) (q.raw.capacity * 2) := by
        cases a <;> simp only [Addition.request, Addition.count] at * <;> omega
      obtain ⟨e', q', hfit, hu⟩ := fit_threw hrep (k := k - q.raw.size) a
        (e := (e.construct q.raw.size).destroy q.raw.size) (by rw [hsize, hcap]; exact hroom) (by omega)
        (by simp [Account.construct, Account.destroy, he])
        (by simp only [Account.construct, Account.destroy, hsize]; rw [hq, Queue.size])
      refine ⟨e', q', ?_, ?_⟩
      · rw [grow_eq h hgrow hall]
        exact hfit
      · rw [htail, hcap] at hu
        have hcont : (q.raw.grow (a.request q.raw)).contents = q.raw.contents := hrep.contents_eq
        unfold Unharmed at hu ⊢
        rw [← hcont, hu]
        omega
  · rw [run_of_room (Nat.not_lt.1 hfull)]
    exact fit_threw h a (Nat.not_lt.1 hfull) (by omega) he hq

/-- The objects 2 and 3 in storage for two, with 3 in the first slot. -/
def wrappedQueue : Queue ℕ :=
  ((((Queue.new 2).pushBack 1).pushBack 2).popFront (by decide)).2.pushBack 3

theorem unharmed_iff_firstRange : ∃ e' q', (Addition.pushBack 4).run ⟨2, 0, some 0⟩ wrappedQueue.raw
      = .ok (false, e', q') ∧
    (Unharmed wrappedQueue.raw q' e' ↔ ¬ (Addition.pushBack 4).InSecond wrappedQueue.raw 0) :=
  unharmed_iff wrappedQueue (.pushBack 4) (e := ⟨2, 0, some 0⟩) rfl rfl (by decide)

/-- The second object is copied by `grow()`, and its constructor throws: the copy of the first one is
lost. -/
theorem not_unharmed : ¬ ∀ (q : Queue ℕ) (a : Addition ℕ) (e : Account) (k : ℕ),
    e.constructed = e.destroyed + q.size → e.copies = some k → k < a.copies q.raw →
    ∃ e' q', a.run e q.raw = .ok (false, e', q') ∧ Unharmed q.raw q' e' := by
  intro h
  obtain ⟨e', q', hrun, -, hcount⟩ :=
    h wrappedQueue (.pushBack 4) ⟨2, 0, some 1⟩ 1 rfl rfl (by decide)
  have hlost : (Addition.pushBack 4).run ⟨2, 0, some 1⟩ wrappedQueue.raw
      = .ok (false, ⟨3, 0, some 0⟩, wrappedQueue.raw) := by rfl
  rw [hlost] at hrun
  cases hrun
  revert hcount
  decide

end Corral.QueueObjects
