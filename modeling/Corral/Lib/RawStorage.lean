import Mathlib.Tactic
import Mathlib.Data.List.ReduceOption

/-!
# Uninitialised storage

A block of raw storage is a list of slots; a slot is `none` as long as no object has been
constructed in it.  Ranges of slots are constructed, read and destroyed one slot after
another:

* `placeRange b i xs`: construct the objects `xs` in the slots from `i` on;
* `destroyRange b i n`: destroy the objects in the `n` slots from `i` on;
* `readRange b i j`: the objects in the slots `i, …, j - 1`.

The lemmas describe each operation on storage that is split around the range it touches.
-/

namespace RawStorage

variable {α : Type*}

/-- Construct the objects `xs` in the slots from `i` on. -/
def placeRange : List (Option α) → ℕ → List α → List (Option α)
  | b, _, [] => b
  | b, i, x :: xs => placeRange (b.set i (some x)) (i + 1) xs

/-- Destroy the objects in the `n` slots from `i` on. -/
def destroyRange : List (Option α) → ℕ → ℕ → List (Option α)
  | b, _, 0 => b
  | b, i, n + 1 => destroyRange (b.set i none) (i + 1) n

/-- The objects in the slots `i, …, j - 1`. -/
def readRange (b : List (Option α)) (i j : ℕ) : List α :=
  ((b.drop i).take (j - i)).reduceOption

theorem set_split (as bs : List (Option α)) {m v : Option α} {i : ℕ} (hi : i = as.length) :
    (as ++ m :: bs).set i v = as ++ v :: bs := by
  subst hi
  simp

@[simp] theorem placeRange_length (b : List (Option α)) (i : ℕ) (xs : List α) :
    (placeRange b i xs).length = b.length := by
  induction xs generalizing b i with
  | nil => rfl
  | cons x xs ih => rw [placeRange, ih, List.length_set]

@[simp] theorem destroyRange_length (b : List (Option α)) (i n : ℕ) :
    (destroyRange b i n).length = b.length := by
  induction n generalizing b i with
  | zero => rfl
  | succ n ih => rw [destroyRange, ih, List.length_set]

theorem placeRange_split (as m bs : List (Option α)) {i : ℕ} (xs : List α)
    (hi : i = as.length) (hm : m.length = xs.length) :
    placeRange (as ++ m ++ bs) i xs = as ++ xs.map some ++ bs := by
  induction xs generalizing as m i with
  | nil =>
    obtain rfl := List.length_eq_zero_iff.1 hm
    simp [placeRange]
  | cons x xs ih =>
    obtain ⟨c, m, rfl⟩ := List.exists_cons_of_length_eq_add_one hm
    rw [placeRange, List.append_assoc, List.cons_append, set_split _ _ hi]
    have := ih (as ++ [some x]) m (i := i + 1) (by simp [hi]) (by simpa using hm)
    simpa using this

theorem destroyRange_split (as m bs : List (Option α)) {i n : ℕ} (hi : i = as.length)
    (hn : n = m.length) :
    destroyRange (as ++ m ++ bs) i n = as ++ List.replicate n none ++ bs := by
  induction m generalizing as i n with
  | nil => subst hn; simp [destroyRange]
  | cons c m ih =>
    subst hn
    rw [List.length_cons, destroyRange, List.append_assoc, List.cons_append, set_split _ _ hi]
    have := ih (as ++ [none]) (i := i + 1) (n := m.length) (by simp [hi]) rfl
    simpa [List.replicate_succ] using this

@[simp] theorem reduceOption_map_some (xs : List α) : (xs.map some).reduceOption = xs := by
  induction xs with
  | nil => rfl
  | cons x xs ih => rw [List.map_cons, List.reduceOption_cons_of_some, ih]

theorem readRange_split (as bs : List (Option α)) (xs : List α) {i j : ℕ} (hi : i = as.length)
    (hj : j = as.length + xs.length) : readRange (as ++ xs.map some ++ bs) i j = xs := by
  subst hi hj
  have hlen : (xs.map some).length = xs.length := List.length_map some
  rw [readRange, List.append_assoc, List.drop_left, Nat.add_sub_cancel_left, ← hlen,
    List.take_left, reduceOption_map_some]

end RawStorage
