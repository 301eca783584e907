import Corral.Lib.RawStorage

/-!
# `detail::Queue`: the circular buffer

`corral/detail/Queue.h`.  The queue owns `capacity_` slots of raw storage; `head_` and `tail_`
are pointers into it, here the offsets from `buffer_`.  When `head_ == tail_` the queue is
empty or full, which only `size_` can tell.

* `RawQueue` and its operations follow the source statement by statement;
* `RawQueue.Rep q xs` says what the storage of a queue holding `xs` looks like: either the
  objects are in one piece, or they wrap around the end of the buffer;
* `Queue` is the type of the queues that can be built, each carrying a proof that it
  represents some list, and its operations are the list operations on `Queue.contents`.

Element operations do not throw here.
-/

namespace Corral

open RawStorage

variable {α : Type*}

/-- `buffer_`, `head_`, `tail_` and `size_`. -/
structure RawQueue (α : Type*) where
  buffer : List (Option α)
  head : ℕ
  tail : ℕ
  size : ℕ

namespace RawQueue

/-- `capacity_`. -/
def capacity (q : RawQueue α) : ℕ := q.buffer.length

/-- `explicit Queue(size_t capacity)`. -/
def new (capacity : ℕ) : RawQueue α := ⟨List.replicate capacity none, 0, 0, 0⟩

def firstRange (q : RawQueue α) : List α :=
  if q.size = 0 then []
  else if q.head < q.tail then readRange q.buffer q.head q.tail
  else readRange q.buffer q.head q.capacity

def secondRange (q : RawQueue α) : List α :=
  if q.size = 0 ∨ q.head < q.tail then [] else readRange q.buffer 0 q.tail

/-- The objects in the order in which `for_each_item()` visits them. -/
def contents (q : RawQueue α) : List α := q.firstRange ++ q.secondRange

/-- A pointer at the end of the buffer is moved to its beginning. -/
def wrap (q : RawQueue α) (i : ℕ) : ℕ := if i = q.capacity then 0 else i

def grow (q : RawQueue α) (newCapacity : ℕ) : RawQueue α :=
  let q' : RawQueue α := new (max (max newCapacity 8) (q.capacity * 2))
  let dst := q'.tail + q.firstRange.length
  { buffer := placeRange (placeRange q'.buffer q'.tail q.firstRange) dst q.secondRange
    head := q'.head
    tail := dst + q.secondRange.length
    size := q.size }

def front (q : RawQueue α) : Option α := (q.buffer[q.head]?).join

def popFront (q : RawQueue α) : RawQueue α :=
  { q with
    buffer := q.buffer.set q.head none
    head := q.wrap (q.head + 1)
    size := q.size - 1 }

/-- The part of `push_back()` after the capacity check. -/
def construct (q : RawQueue α) (x : α) : RawQueue α :=
  { q with
    buffer := q.buffer.set q.tail (some x)
    tail := q.wrap (q.tail + 1)
    size := q.size + 1 }

def pushBack (q : RawQueue α) (x : α) : RawQueue α :=
  (if q.size = q.capacity then q.grow 0 else q).construct x

/-- The part of `append()` after the capacity check: one chunk when the free space is not
fragmented, else one up to the end of the buffer and one from its beginning. -/
def appendFit (q : RawQueue α) (xs : List α) : RawQueue α :=
  if q.tail + xs.length ≤ q.capacity then
    { q with
      buffer := placeRange q.buffer q.tail xs
      tail := q.wrap (q.tail + xs.length)
      size := q.size + xs.length }
  else
    let k := q.capacity - q.tail
    { q with
      buffer := placeRange (placeRange q.buffer q.tail (xs.take k)) 0 (xs.drop k)
      tail := q.wrap (xs.drop k).length
      size := q.size + xs.length }

def append (q : RawQueue α) (xs : List α) : RawQueue α :=
  (if q.capacity < q.size + xs.length then q.grow (q.size + xs.length) else q).appendFit xs

/-- `pop_front_to()` after its assertion `n <= size_`: the objects written to the output
iterator and the queue that is left. -/
def popFrontTo (q : RawQueue α) (n : ℕ) : List α × RawQueue α :=
  let n₁ := min n (q.capacity - q.head)
  let out₁ := readRange q.buffer q.head (q.head + n₁)
  let q₁ : RawQueue α :=
    { q with
      buffer := destroyRange q.buffer q.head n₁
      head := q.wrap (q.head + n₁)
      size := q.size - n₁ }
  let n₂ := min (n - n₁) q.tail
  if n₂ = 0 then (out₁, q₁)
  else
    (out₁ ++ readRange q₁.buffer 0 n₂,
      { q₁ with
        buffer := destroyRange q₁.buffer 0 n₂
        head := n₂
        size := q₁.size - n₂ })

/-! ### What the storage of a queue looks like -/

/-- The storage of a queue that holds a given list.  `straight a b xs`: `a` free slots, the
objects, `b` free slots.  `wrapped ys g xs`: the objects `xs` at the end of the buffer are
followed by the objects `ys` at its beginning, with `g` free slots between. -/
inductive Rep : RawQueue α → List α → Prop
  | straight (a b : ℕ) (xs : List α) (hb : 0 < b ∨ a = 0 ∧ xs = []) :
      Rep ⟨List.replicate a none ++ xs.map some ++ List.replicate b none, a, a + xs.length,
        xs.length⟩ xs
  | wrapped (ys : List α) (g : ℕ) (xs : List α) (hx : xs ≠ []) :
      Rep ⟨ys.map some ++ List.replicate g none ++ xs.map some, ys.length + g, ys.length,
        xs.length + ys.length⟩ (xs ++ ys)

theorem Rep.size_eq {q : RawQueue α} {xs : List α} (h : Rep q xs) : q.size = xs.length := by
  cases h <;> simp

theorem Rep.size_le {q : RawQueue α} {xs : List α} (h : Rep q xs) : q.size ≤ q.capacity := by
  cases h <;> simp [capacity] <;> omega

theorem rep_new (capacity : ℕ) : Rep (new capacity : RawQueue α) [] := by
  have h : 0 < capacity ∨ (0 = 0 ∧ ([] : List α) = []) := Or.inr ⟨rfl, rfl⟩
  simpa [new] using Rep.straight 0 capacity ([] : List α) h

theorem Rep.contents_eq {q : RawQueue α} {xs : List α} (h : Rep q xs) : q.contents = xs := by
  cases h with
  | straight a b xs hb =>
    rcases xs with _ | ⟨x, xs⟩
    · simp [contents, firstRange, secondRange]
    · have hr := readRange_split (List.replicate a none) (List.replicate b none) (x :: xs)
        (i := a) (j := a + (x :: xs).length) (by simp) (by simp)
      simp only [contents, firstRange, secondRange]
      rw [if_neg (by simp), if_pos (by simp), if_pos (Or.inr (by simp)), hr, List.append_nil]
  | wrapped ys g xs hx =>
    have hpos : 0 < xs.length := List.length_pos_iff.2 hx
    have h₁ := readRange_split (ys.map some ++ List.replicate g none) [] xs
      (i := ys.length + g) (j := ys.length + g + xs.length) (by simp) (by simp)
    have h₂ := readRange_split [] (List.replicate g none ++ xs.map some) ys
      (i := 0) (j := ys.length) rfl (by simp)
    simp only [List.append_nil, List.nil_append, ← List.append_assoc] at h₁ h₂
    simp only [contents, firstRange, secondRange, capacity]
    rw [if_neg (by omega), if_neg (by omega), if_neg (by omega), h₂]
    simp only [List.length_append, List.length_map, List.length_replicate, h₁]

/-! ### The operations -/

theorem Rep.grow {q : RawQueue α} {xs : List α} (h : Rep q xs) {n : ℕ}
    (hn : q.size < max (max n 8) (q.capacity * 2)) : Rep (q.grow n) xs := by
  obtain ⟨b, hb⟩ := Nat.exists_eq_add_of_lt (h.size_eq ▸ hn)
  have hxs : xs = q.firstRange ++ q.secondRange := h.contents_eq.symm
  have hlen : xs.length = q.firstRange.length + q.secondRange.length := by
    conv_lhs => rw [hxs, List.length_append]
  have h₁ := placeRange_split [] (List.replicate q.firstRange.length none)
    (List.replicate (q.secondRange.length + (b + 1)) none) (i := 0) q.firstRange rfl (by simp)
  have h₂ := placeRange_split (q.firstRange.map some)
    (List.replicate q.secondRange.length none) (List.replicate (b + 1) none)
    (i := 0 + q.firstRange.length) q.secondRange (by simp) (by simp)
  have hrep := Rep.straight 0 (b + 1) xs (Or.inl (Nat.succ_pos b))
  have hbuf : placeRange (placeRange (List.replicate (max (max n 8) (q.capacity * 2)) none) 0
      q.firstRange) (0 + q.firstRange.length) q.secondRange
      = List.replicate 0 none ++ xs.map some ++ List.replicate (b + 1) none := by
    rw [hb, hlen, show q.firstRange.length + q.secondRange.length + b + 1
      = q.firstRange.length + (q.secondRange.length + (b + 1)) by omega, List.replicate_add]
    simp only [List.nil_append] at h₁
    rw [h₁, List.replicate_add, ← List.append_assoc, h₂, hxs, List.map_append]
    simp
  unfold RawQueue.grow
  simp only [new]
  rw [hbuf, h.size_eq, Nat.zero_add, ← hlen]
  simpa using hrep

theorem grow_capacity (q : RawQueue α) (n : ℕ) :
    (q.grow n).capacity = max (max n 8) (q.capacity * 2) := by
  simp [grow, capacity, new]

/-- Constructing one more object in a queue that is not full. -/
theorem Rep.construct {q : RawQueue α} {xs : List α} (h : Rep q xs) (hq : q.size < q.capacity)
    (x : α) : Rep (q.construct x) (xs ++ [x]) := by
  cases h with
  | straight a b xs hb =>
    simp only [capacity, List.length_append, List.length_replicate, List.length_map] at hq
    have hpos : 0 < b := by
      rcases hb with hb | ⟨rfl, rfl⟩
      · exact hb
      · simpa using hq
    obtain ⟨b, rfl⟩ := Nat.exists_eq_add_of_le' hpos
    have hset := set_split (List.replicate a none ++ xs.map some)
      (List.replicate b none) (m := none) (v := some x) (i := a + xs.length) (by simp)
    rw [← List.replicate_succ] at hset
    simp only [RawQueue.construct, wrap, capacity, hset, List.length_append,
      List.length_replicate, List.length_map]
    rcases Nat.eq_zero_or_pos b with rfl | hb'
    · -- the last free slot is at the end of the buffer: the tail wraps
      have := Rep.wrapped [] a (xs ++ [x]) (by simp)
      simpa using this
    · have := Rep.straight a b (xs ++ [x]) (Or.inl hb')
      rw [if_neg (by omega)]
      simpa [Nat.add_assoc] using this
  | wrapped ys g xs hx =>
    have hpos : 0 < xs.length := List.length_pos_iff.2 hx
    simp only [capacity, List.length_append, List.length_replicate, List.length_map] at hq
    obtain ⟨g, rfl⟩ : ∃ g', g = g' + 1 := ⟨g - 1, by omega⟩
    have hset := set_split (ys.map some) (List.replicate g none ++ xs.map some)
      (m := none) (v := some x) (i := ys.length) (by simp)
    have := Rep.wrapped (ys ++ [x]) g xs hx
    simp only [RawQueue.construct, wrap, capacity, List.length_append, List.length_replicate,
      List.length_map]
    rw [if_neg (by omega), List.append_assoc, List.replicate_succ, List.cons_append, hset]
    simpa [Nat.add_assoc, Nat.add_comm, Nat.add_left_comm] using this

theorem Rep.pushBack {q : RawQueue α} {xs : List α} (h : Rep q xs) (x : α) :
    Rep (q.pushBack x) (xs ++ [x]) := by
  have hle := h.size_le
  unfold RawQueue.pushBack
  split_ifs with hfull
  · have hlt : q.size < max (max 0 8) (q.capacity * 2) := by omega
    refine (h.grow hlt).construct ?_ x
    rw [grow_capacity]
    exact hlt
  · exact h.construct (by omega) x

theorem Rep.tail_lt {q : RawQueue α} {xs : List α} (h : Rep q xs) :
    q.tail < q.capacity ∨ q.tail = 0 := by
  cases h with
  | straight a b xs hb =>
    rcases hb with hb | ⟨rfl, rfl⟩
    · left; simp [capacity]; omega
    · right; rfl
  | wrapped ys g xs hx =>
    have hpos : 0 < xs.length := List.length_pos_iff.2 hx
    left; simp [capacity]; omega

theorem Rep.appendFit_nil {q : RawQueue α} {xs : List α} (h : Rep q xs) :
    q.appendFit [] = q := by
  have hw : q.wrap q.tail = q.tail := by
    unfold wrap
    split_ifs with hc
    · rcases h.tail_lt with ht | ht <;> omega
    · rfl
  have hle : q.tail ≤ q.capacity := by rcases h.tail_lt with ht | ht <;> omega
  simp [RawQueue.appendFit, placeRange, hw, hle]

/-- Appending a range that fits into the free slots. -/
theorem Rep.appendFit {q : RawQueue α} {xs : List α} (h : Rep q xs) (zs : List α)
    (hq : q.size + zs.length ≤ q.capacity) : Rep (q.appendFit zs) (xs ++ zs) := by
  by_cases hz : zs = []
  · subst hz
    rwa [h.appendFit_nil, List.append_nil]
  have hzpos : 0 < zs.length := List.length_pos_iff.2 hz
  cases h with
  | straight a b xs hb =>
    simp only [capacity, List.length_append, List.length_replicate, List.length_map] at hq
    by_cases hfit : zs.length ≤ b
    · obtain ⟨c, rfl⟩ := Nat.exists_eq_add_of_le hfit
      have hp := placeRange_split (List.replicate a none ++ xs.map some)
        (List.replicate zs.length none) (List.replicate c none) (i := a + xs.length) zs
        (by simp) (by simp)
      rw [List.append_assoc _ (List.replicate _ _), ← List.replicate_add] at hp
      simp only [RawQueue.appendFit, wrap, capacity, hp, List.length_append,
        List.length_replicate, List.length_map]
      rw [if_pos (by omega)]
      rcases Nat.eq_zero_or_pos c with rfl | hc
      · have := Rep.wrapped [] a (xs ++ zs) (by simp [hz])
        rw [if_pos (by omega)]
        simpa using this
      · have := Rep.straight a c (xs ++ zs) (Or.inl hc)
        rw [if_neg (by omega)]
        simpa [Nat.add_assoc] using this
    · -- the range is cut at the end of the buffer
      obtain ⟨us, vs, rfl, hus⟩ : ∃ us vs, zs = us ++ vs ∧ us.length = b :=
        ⟨zs.take b, zs.drop b, (List.take_append_drop b zs).symm, by simp; omega⟩
      subst hus
      simp only [List.length_append] at hq hfit hzpos
      have hvs : 0 < vs.length := by omega
      obtain ⟨g, rfl⟩ := Nat.exists_eq_add_of_le (show vs.length ≤ a by omega)
      have hp₁ := placeRange_split (List.replicate (vs.length + g) none ++ xs.map some)
        (List.replicate us.length none) [] (i := vs.length + g + xs.length) us (by simp) (by simp)
      have hp₂ := placeRange_split [] (List.replicate vs.length none)
        (List.replicate g none ++ (xs ++ us).map some) (i := 0) vs rfl (by simp)
      simp only [List.append_nil, List.nil_append] at hp₁ hp₂
      have hbuf : placeRange (placeRange (List.replicate (vs.length + g) none ++ xs.map some ++
          List.replicate us.length none) (vs.length + g + xs.length) us) 0 vs
          = vs.map some ++ List.replicate g none ++ (xs ++ us).map some := by
        rw [hp₁, List.append_assoc, ← List.map_append, List.replicate_add, List.append_assoc,
          hp₂, List.append_assoc]
      have hne : xs ++ us ≠ [] := by
        intro hnil
        simp only [List.append_eq_nil_iff] at hnil
        rcases hb with hb | ⟨hb, -⟩
        · simp [hnil.2] at hb
        · omega
      have hrep := Rep.wrapped vs g (xs ++ us) hne
      simp only [RawQueue.appendFit, wrap, capacity, List.length_append, List.length_replicate,
        List.length_map]
      rw [if_neg (by omega), show vs.length + g + xs.length + us.length
        - (vs.length + g + xs.length) = us.length by omega, List.take_left, List.drop_left, hbuf,
        if_neg (by omega)]
      simpa [Nat.add_assoc, Nat.add_comm, Nat.add_left_comm] using hrep
  | wrapped ys g xs hx =>
    have hpos : 0 < xs.length := List.length_pos_iff.2 hx
    simp only [capacity, List.length_append, List.length_replicate, List.length_map] at hq
    obtain ⟨g, rfl⟩ := Nat.exists_eq_add_of_le (show zs.length ≤ g by omega)
    have hp := placeRange_split (ys.map some) (List.replicate zs.length none)
      (List.replicate g none ++ xs.map some) (i := ys.length) zs (by simp) (by simp)
    have hbuf : placeRange (ys.map some ++ List.replicate (zs.length + g) none ++ xs.map some)
        ys.length zs = (ys ++ zs).map some ++ List.replicate g none ++ xs.map some := by
      rw [List.replicate_add, List.map_append]
      simpa only [List.append_assoc] using hp
    have hrep := Rep.wrapped (ys ++ zs) g xs hx
    simp only [RawQueue.appendFit, wrap, capacity, List.length_append, List.length_replicate,
      List.length_map]
    rw [if_pos (by omega), if_neg (by omega), hbuf]
    simpa [Nat.add_assoc, Nat.add_comm, Nat.add_left_comm] using hrep

theorem Rep.append {q : RawQueue α} {xs : List α} (h : Rep q xs) (zs : List α) :
    Rep (q.append zs) (xs ++ zs) := by
  have hle := h.size_le
  unfold RawQueue.append
  split_ifs with hlt
  · have hgrow : q.size < max (max (q.size + zs.length) 8) (q.capacity * 2) := by omega
    refine (h.grow hgrow).appendFit zs ?_
    rw [grow_capacity]
    exact le_max_of_le_left (le_max_left _ _)
  · exact h.appendFit zs (by omega)

theorem Rep.front {q : RawQueue α} {x : α} {xs : List α} (h : Rep q (x :: xs)) :
    q.front = some x := by
  generalize hys : x :: xs = ys at h
  cases h with
  | straight a b zs hb => subst hys; simp [RawQueue.front]
  | wrapped us g zs hx =>
    obtain ⟨z, zs, rfl⟩ := List.exists_cons_of_ne_nil hx
    simp only [List.cons_append, List.cons.injEq] at hys
    simp [RawQueue.front, hys.1]

theorem Rep.popFront {q : RawQueue α} {x : α} {xs : List α} (h : Rep q (x :: xs)) :
    Rep q.popFront xs := by
  generalize hys : x :: xs = ys at h
  cases h with
  | straight a b zs hb =>
    subst hys
    have hb' : 0 < b := by simpa using hb
    have hset := set_split (List.replicate a none)
      (xs.map some ++ List.replicate b none) (m := some x) (v := none) (i := a) (by simp)
    have hrep := Rep.straight (a + 1) b xs (Or.inl hb')
    simp only [RawQueue.popFront, wrap, capacity, List.map_cons, List.append_assoc,
      List.cons_append, hset, List.length_append, List.length_replicate, List.length_map,
      List.length_cons]
    rw [if_neg (by omega)]
    simpa [List.replicate_succ', Nat.add_assoc, Nat.add_comm, Nat.add_left_comm] using hrep
  | wrapped us g zs hx =>
    obtain ⟨z, zs, rfl⟩ := List.exists_cons_of_ne_nil hx
    simp only [List.cons_append, List.cons.injEq] at hys
    obtain ⟨rfl, rfl⟩ := hys
    have hset := set_split (us.map some ++ List.replicate g none)
      (zs.map some) (m := some x) (v := none) (i := us.length + g) (by simp)
    simp only [RawQueue.popFront, wrap, capacity, List.map_cons, hset, List.length_append,
      List.length_replicate, List.length_map, List.length_cons]
    rcases eq_or_ne zs [] with rfl | hz
    · -- the last object before the end of the buffer: the head wraps
      have hrep := Rep.straight 0 (g + 1) us (Or.inl (Nat.succ_pos g))
      simpa [List.replicate_succ'] using hrep
    · have hzpos : 0 < zs.length := List.length_pos_iff.2 hz
      have hrep := Rep.wrapped us (g + 1) zs hz
      rw [if_neg (by omega)]
      simpa [List.replicate_succ', Nat.add_assoc, Nat.add_comm, Nat.add_left_comm] using hrep

theorem Rep.popFrontTo {q : RawQueue α} {xs : List α} (h : Rep q xs) {n : ℕ} (hn : n ≤ q.size) :
    (q.popFrontTo n).1 = xs.take n ∧ Rep (q.popFrontTo n).2 (xs.drop n) := by
  rw [h.size_eq] at hn
  cases h with
  | straight a b xs hb =>
    obtain ⟨us, vs, rfl, rfl⟩ : ∃ us vs, xs = us ++ vs ∧ us.length = n :=
      ⟨xs.take n, xs.drop n, (List.take_append_drop n xs).symm, by simp [hn]⟩
    have hr := readRange_split (List.replicate a none) (vs.map some ++ List.replicate b none) us
      (i := a) (j := a + us.length) (by simp) (by simp)
    have hd := destroyRange_split (List.replicate a none) (us.map some)
      (vs.map some ++ List.replicate b none) (i := a) (n := us.length) (by simp) (by simp)
    simp only [RawQueue.popFrontTo, wrap, capacity, List.length_append, List.length_replicate,
      List.length_map, List.map_append, List.append_assoc] at hr hd ⊢
    rw [show min us.length (a + (us.length + (vs.length + b)) - a) = us.length by omega,
      Nat.sub_self, Nat.zero_min, if_pos rfl, hr, hd, List.take_left, List.drop_left]
    refine ⟨rfl, ?_⟩
    rcases hb with hb | ⟨rfl, hnil⟩
    · have hrep := Rep.straight (a + us.length) b vs (Or.inl hb)
      rw [List.replicate_add] at hrep
      rw [if_neg (by omega), Nat.add_sub_cancel_left]
      simpa only [List.append_assoc, Nat.add_assoc] using hrep
    · obtain ⟨rfl, rfl⟩ := List.append_eq_nil_iff.1 hnil
      have hrep := Rep.straight 0 b ([] : List α) (Or.inr ⟨rfl, rfl⟩)
      simpa using hrep
  | wrapped ys g xs hx =>
    have hpos : 0 < xs.length := List.length_pos_iff.2 hx
    rw [List.length_append] at hn
    simp only [RawQueue.popFrontTo, wrap, capacity, List.length_append, List.length_replicate,
      List.length_map]
    rw [Nat.add_sub_cancel_left]
    rcases Nat.lt_or_ge n xs.length with hlt | hge
    · -- only objects before the end of the buffer are taken
      obtain ⟨us, vs, rfl, rfl⟩ : ∃ us vs, xs = us ++ vs ∧ us.length = n :=
        ⟨xs.take n, xs.drop n, (List.take_append_drop n xs).symm, by simp; omega⟩
      have hv : vs ≠ [] := by rintro rfl; simp at hlt
      have hr := readRange_split (ys.map some ++ List.replicate g none) (vs.map some) us
        (i := ys.length + g) (j := ys.length + g + us.length) (by simp) (by simp)
      have hd := destroyRange_split (ys.map some ++ List.replicate g none) (us.map some)
        (vs.map some) (i := ys.length + g) (n := us.length) (by simp) (by simp)
      simp only [List.length_append, List.map_append, List.append_assoc] at hr hd hlt ⊢
      have hrep := Rep.wrapped ys (g + us.length) vs hv
      rw [List.replicate_add] at hrep
      rw [Nat.min_eq_left (show us.length ≤ us.length + vs.length by omega), Nat.sub_self,
        Nat.zero_min, if_pos rfl, hr, hd, List.take_left, List.drop_left, if_neg (by omega),
        Nat.add_assoc us.length, Nat.add_sub_cancel_left]
      refine ⟨rfl, ?_⟩
      simpa only [List.append_assoc, Nat.add_assoc] using hrep
    · -- the first chunk is taken whole, and the rest from the beginning of the buffer
      have hr := readRange_split (ys.map some ++ List.replicate g none) [] xs
        (i := ys.length + g) (j := ys.length + g + xs.length) (by simp) (by simp)
      have hd := destroyRange_split (ys.map some ++ List.replicate g none) (xs.map some) []
        (i := ys.length + g) (n := xs.length) (by simp) (by simp)
      rw [List.append_nil] at hr hd
      rw [Nat.min_eq_right hge, Nat.min_eq_left (by omega), hr, hd, if_pos rfl]
      obtain ⟨us, vs, rfl, hus⟩ : ∃ us vs, ys = us ++ vs ∧ us.length = n - xs.length :=
        ⟨ys.take (n - xs.length), ys.drop (n - xs.length), (List.take_append_drop _ ys).symm,
          by simp; omega⟩
      have hn' : n = xs.length + us.length := by omega
      subst hn'
      have hsplit : xs ++ (us ++ vs) = (xs ++ us) ++ vs := (List.append_assoc _ _ _).symm
      rw [hsplit, show xs.length + us.length = (xs ++ us).length by simp, List.take_left,
        List.drop_left]
      have hrep := Rep.straight us.length (g + xs.length) vs (Or.inl (by omega))
      rw [List.replicate_add] at hrep
      rcases eq_or_ne us [] with rfl | hu
      · rw [if_pos (by simp)]
        refine ⟨by simp, ?_⟩
        simpa [-List.replicate_append_replicate] using hrep
      · have hupos : 0 < us.length := List.length_pos_iff.2 hu
        have hr₂ := readRange_split [] (vs.map some ++ List.replicate g none ++
          List.replicate xs.length none ++ []) us (i := 0) (j := us.length) rfl (by simp)
        have hd₂ := destroyRange_split [] (us.map some) (vs.map some ++ List.replicate g none ++
          List.replicate xs.length none ++ []) (i := 0) (n := us.length) rfl (by simp)
        simp only [List.nil_append, List.append_nil, List.append_assoc] at hr₂ hd₂
        simp only [List.length_append, Nat.add_sub_cancel_left, List.map_append,
          List.append_assoc, List.append_nil]
        rw [if_neg (by omega), hr₂, hd₂]
        refine ⟨rfl, ?_⟩
        simpa only [List.append_assoc] using hrep

/-! ### Capacity -/

theorem construct_capacity (q : RawQueue α) (x : α) : (q.construct x).capacity = q.capacity := by
  simp [RawQueue.construct, capacity]

theorem appendFit_capacity (q : RawQueue α) (xs : List α) :
    (q.appendFit xs).capacity = q.capacity := by
  unfold RawQueue.appendFit
  split_ifs <;> simp [capacity]

theorem popFront_capacity (q : RawQueue α) : q.popFront.capacity = q.capacity := by
  simp [RawQueue.popFront, capacity]

theorem popFrontTo_capacity (q : RawQueue α) (n : ℕ) :
    (q.popFrontTo n).2.capacity = q.capacity := by
  simp only [RawQueue.popFrontTo]
  split_ifs <;> simp [capacity]

end RawQueue

/-! ### The queues that can be built -/

/-- A queue together with the fact that its storage represents a list. -/
structure Queue (α : Type*) where
  raw : RawQueue α
  rep : raw.Rep raw.contents

namespace Queue

/-- Bundle a queue that represents some list. -/
def ofRep (q : RawQueue α) {xs : List α} (h : q.Rep xs) : Queue α :=
  ⟨q, h.contents_eq.symm ▸ h⟩

def new (capacity : ℕ) : Queue α := ofRep (.new capacity) (RawQueue.rep_new capacity)

def capacity (q : Queue α) : ℕ := q.raw.capacity

def size (q : Queue α) : ℕ := q.raw.size

/-- The queue as a list, oldest object first. -/
def contents (q : Queue α) : List α := q.raw.contents

theorem size_eq (q : Queue α) : q.size = q.contents.length := q.rep.size_eq

theorem size_le_capacity (q : Queue α) : q.size ≤ q.capacity := q.rep.size_le

@[simp] theorem contents_ofRep (q : RawQueue α) {xs : List α} (h : q.Rep xs) :
    (ofRep q h).contents = xs := h.contents_eq

@[simp] theorem capacity_ofRep (q : RawQueue α) {xs : List α} (h : q.Rep xs) :
    (ofRep q h).capacity = q.capacity := rfl

@[simp] theorem contents_new (capacity : ℕ) : (new capacity : Queue α).contents = [] := by
  simp [new]

@[simp] theorem size_new (capacity : ℕ) : (new capacity : Queue α).size = 0 := by
  simp [size_eq]

@[simp] theorem capacity_new (n : ℕ) : (new n : Queue α).capacity = n := by
  simp [new, RawQueue.new, RawQueue.capacity]

def pushBack (q : Queue α) (x : α) : Queue α := ofRep (q.raw.pushBack x) (q.rep.pushBack x)

def append (q : Queue α) (xs : List α) : Queue α := ofRep (q.raw.append xs) (q.rep.append xs)

@[simp] theorem contents_pushBack (q : Queue α) (x : α) :
    (q.pushBack x).contents = q.contents ++ [x] :=
  contents_ofRep _ _

@[simp] theorem contents_append (q : Queue α) (xs : List α) :
    (q.append xs).contents = q.contents ++ xs :=
  contents_ofRep _ _

/-- `push_back()` keeps the storage while there is a free slot. -/
theorem capacity_pushBack {q : Queue α} (h : q.size < q.capacity) (x : α) :
    (q.pushBack x).capacity = q.capacity := by
  have hne : q.raw.size ≠ q.raw.capacity := Nat.ne_of_lt h
  rw [pushBack, capacity_ofRep, RawQueue.pushBack, if_neg hne]
  exact RawQueue.construct_capacity _ _

/-- `append()` keeps the storage while the range fits. -/
theorem capacity_append {q : Queue α} {xs : List α} (h : q.size + xs.length ≤ q.capacity) :
    (q.append xs).capacity = q.capacity := by
  have hfit : ¬ q.raw.capacity < q.raw.size + xs.length := Nat.not_lt.2 h
  rw [append, capacity_ofRep, RawQueue.append, if_neg hfit]
  exact RawQueue.appendFit_capacity _ _

theorem contents_ne_nil {q : Queue α} (h : q.size ≠ 0) : q.contents ≠ [] := by
  rw [size_eq] at h
  exact fun hnil => h (by simp [hnil])

/-- The oldest object of a non-empty queue and the queue without it: `front()` followed by
`pop_front()`. -/
def popFront (q : Queue α) (h : q.size ≠ 0) : α × Queue α :=
  have hrep : q.raw.Rep (q.contents.head (contents_ne_nil h) :: q.contents.tail) := by
    rw [List.cons_head_tail]
    exact q.rep
  (q.raw.front.get (by rw [hrep.front]; rfl), ofRep q.raw.popFront hrep.popFront)

theorem contents_eq_popFront (q : Queue α) (h : q.size ≠ 0) :
    q.contents = (q.popFront h).1 :: (q.popFront h).2.contents := by
  have hrep : q.raw.Rep (q.contents.head (contents_ne_nil h) :: q.contents.tail) := by
    rw [List.cons_head_tail]
    exact q.rep
  have hfront : (q.popFront h).1 = q.contents.head (contents_ne_nil h) := by
    simp [popFront, hrep.front]
  rw [hfront, popFront, contents_ofRep, List.cons_head_tail]

@[simp] theorem capacity_popFront (q : Queue α) (h : q.size ≠ 0) :
    (q.popFront h).2.capacity = q.capacity :=
  RawQueue.popFront_capacity _

/-- `pop_front_to()` of at most `size_` objects. -/
def popFrontTo (q : Queue α) (n : ℕ) (h : n ≤ q.size) : List α × Queue α :=
  ((q.raw.popFrontTo n).1, ofRep (q.raw.popFrontTo n).2 (q.rep.popFrontTo h).2)

theorem contents_eq_popFrontTo (q : Queue α) {n : ℕ} (h : n ≤ q.size) :
    q.contents = (q.popFrontTo n h).1 ++ (q.popFrontTo n h).2.contents := by
  rw [popFrontTo, contents_ofRep, (q.rep.popFrontTo h).1]
  exact (List.take_append_drop n q.contents).symm

theorem length_popFrontTo (q : Queue α) {n : ℕ} (h : n ≤ q.size) :
    (q.popFrontTo n h).1.length = n := by
  rw [popFrontTo, (q.rep.popFrontTo h).1, List.length_take]
  rw [size_eq] at h
  exact Nat.min_eq_left h

@[simp] theorem capacity_popFrontTo (q : Queue α) {n : ℕ} (h : n ≤ q.size) :
    (q.popFrontTo n h).2.capacity = q.capacity :=
  RawQueue.popFrontTo_capacity _ _

end Queue

end Corral
