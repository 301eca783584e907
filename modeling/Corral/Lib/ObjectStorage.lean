import Corral.Lib.RawStorage

/-!
# Objects in uninitialised storage

The accesses to a block of raw storage, checked: an object is constructed only in a slot without one,
and only an object that is there is read or destroyed.  A constructor may throw.

* `Account`: how many objects have been constructed and destroyed so far, and how many more
  constructors return before one throws;
* `construct`, `readObjects`, `visitObjects`, `destroyObjects`, `uninitializedCopy`: the accesses,
  each with the `Fault` that a wrong one is;
* `readObjects_split` to `uninitializedCopy_split_threw`: what they do on storage that is split around
  the range they touch.
-/

namespace ObjectStorage

open RawStorage

variable {α : Type*}

/-- A wrong access: beyond the end of the block, a construction over an object, the use of an object
that is not there. -/
inductive Fault
  | outOfRange
  | occupied
  | vacant
  deriving DecidableEq

/-- The objects constructed and destroyed; `copies` is the number of constructors that return before
one throws, if one does. -/
structure Account where
  constructed : ℕ
  destroyed : ℕ
  copies : Option ℕ
  deriving DecidableEq

/-- `n` more constructors return. -/
def Account.construct (e : Account) (n : ℕ) : Account :=
  ⟨e.constructed + n, e.destroyed, e.copies.map (· - n)⟩

/-- `n` more objects are destroyed. -/
def Account.destroy (e : Account) (n : ℕ) : Account :=
  ⟨e.constructed, e.destroyed + n, e.copies⟩

/-- `n` constructors return before one throws. -/
def Account.Allows (e : Account) (n : ℕ) : Prop := ∀ k, e.copies = some k → n ≤ k

/-- A constructor is called for the slot `i`; it may throw, which the flag tells. -/
def construct (e : Account) (b : List (Option α)) (i : ℕ) (x : α) :
    Except Fault (Bool × Account × List (Option α)) :=
  match b[i]? with
  | none => .error .outOfRange
  | some (some _) => .error .occupied
  | some none =>
    if e.copies = some 0 then .ok (false, e, b)
    else .ok (true, e.construct 1, b.set i (some x))

/-- The object in the slot `i`. -/
def readObject (b : List (Option α)) (i : ℕ) : Except Fault α :=
  match b[i]? with
  | none => .error .outOfRange
  | some none => .error .vacant
  | some (some x) => .ok x

/-- The `n` objects in the slots from `i` on. -/
def readObjects (b : List (Option α)) (i : ℕ) : ℕ → Except Fault (List α)
  | 0 => .ok []
  | n + 1 => (readObject b i).bind fun x => (readObjects b (i + 1) n).map (x :: ·)

/-- `f` is called on the `n` objects in the slots from `i` on, and may change them: the objects it
was called on, and the storage. -/
def visitObjects (f : α → α) (b : List (Option α)) (i : ℕ) :
    ℕ → Except Fault (List α × List (Option α))
  | 0 => .ok ([], b)
  | n + 1 => (readObject b i).bind fun x =>
    (visitObjects f (b.set i (some (f x))) (i + 1) n).map fun r => (x :: r.1, r.2)

/-- `std::destroy()` of the `n` objects in the slots from `i` on. -/
def destroyObjects (e : Account) (b : List (Option α)) (i : ℕ) :
    ℕ → Except Fault (Account × List (Option α))
  | 0 => .ok (e, b)
  | n + 1 => (readObject b i).bind fun _ => destroyObjects (e.destroy 1) (b.set i none) (i + 1) n

/-- The loop of `uninitializedCopy`, at the slot `i`. -/
def copyLoop (e : Account) (b : List (Option α)) (first i : ℕ) :
    List α → Except Fault (Bool × Account × List (Option α))
  | [] => .ok (true, e, b)
  | x :: xs => (construct e b i x).bind fun r =>
    if r.1 then copyLoop r.2.1 r.2.2 first (i + 1) xs
    else (destroyObjects r.2.1 r.2.2 first (i - first)).map fun u => (false, u.1, u.2)

/-- `std::uninitialized_copy()` into the slots from `first` on: what it has constructed when a
constructor throws is destroyed before the exception goes on. -/
def uninitializedCopy (e : Account) (b : List (Option α)) (first : ℕ) (xs : List α) :
    Except Fault (Bool × Account × List (Option α)) :=
  copyLoop e b first first xs

/-! ### The account -/

@[simp] theorem Account.construct_zero (e : Account) : e.construct 0 = e := by
  cases e with
  | mk c d k => cases k <;> simp [Account.construct]

@[simp] theorem Account.destroy_zero (e : Account) : e.destroy 0 = e := rfl

theorem Account.construct_construct (e : Account) (m n : ℕ) :
    (e.construct m).construct n = e.construct (m + n) := by
  cases e with
  | mk c d k => cases k <;> simp [Account.construct, Nat.add_assoc, Nat.sub_sub]

theorem Account.destroy_destroy (e : Account) (m n : ℕ) :
    (e.destroy m).destroy n = e.destroy (m + n) := by
  simp [Account.destroy, Nat.add_assoc]

theorem Account.allows_of_none {e : Account} (h : e.copies = none) (n : ℕ) : e.Allows n := by
  intro k hk
  rw [h] at hk
  cases hk

theorem Account.Allows.construct {e : Account} {m n : ℕ} (h : e.Allows (m + n)) :
    (e.construct m).Allows n := by
  intro k hk
  simp only [Account.construct, Option.map_eq_some_iff] at hk
  obtain ⟨j, hj, rfl⟩ := hk
  have := h j hj
  omega

/-! ### Storage that is split around a range -/

theorem readObject_split (as bs : List (Option α)) (x : α) {i : ℕ} (hi : i = as.length) :
    readObject (as ++ some x :: bs) i = .ok x := by
  subst hi
  simp [readObject]

theorem readObjects_split (as bs : List (Option α)) (xs : List α) {i n : ℕ} (hi : i = as.length)
    (hn : n = xs.length) : readObjects (as ++ xs.map some ++ bs) i n = .ok xs := by
  induction xs generalizing as i n with
  | nil => subst hn; rfl
  | cons x xs ih =>
    subst hi hn
    have hget := readObject_split as (xs.map some ++ bs) x (i := as.length) rfl
    have hrec := ih (as ++ [some x]) (i := as.length + 1) (n := xs.length) (by simp) rfl
    have hb : as ++ (x :: xs).map some ++ bs = as ++ [some x] ++ xs.map some ++ bs := by simp
    rw [List.length_cons, readObjects, hb, hrec, ← hb, List.append_assoc, List.map_cons,
      List.cons_append, hget]
    rfl

theorem visitObjects_split (f : α → α) (as bs : List (Option α)) (xs : List α) {i n : ℕ}
    (hi : i = as.length) (hn : n = xs.length) :
    visitObjects f (as ++ xs.map some ++ bs) i n = .ok (xs, as ++ (xs.map f).map some ++ bs) := by
  induction xs generalizing as i n with
  | nil => subst hn; rfl
  | cons x xs ih =>
    subst hn
    have hb : as ++ (x :: xs).map some ++ bs = as ++ some x :: (xs.map some ++ bs) := by simp
    have hget := readObject_split as (xs.map some ++ bs) x hi
    have hset : (as ++ some x :: (xs.map some ++ bs)).set i (some (f x))
        = as ++ [some (f x)] ++ xs.map some ++ bs := by
      rw [set_split _ _ hi]
      simp
    have hrec := ih (as ++ [some (f x)]) (i := i + 1) (n := xs.length) (by simp [hi]) rfl
    rw [List.length_cons, visitObjects, hb, hget]
    simp only [Except.bind, hset, hrec, Except.map]
    simp

theorem destroyObjects_split (e : Account) (as bs : List (Option α)) (xs : List α) {i n : ℕ}
    (hi : i = as.length) (hn : n = xs.length) :
    destroyObjects e (as ++ xs.map some ++ bs) i n
      = .ok (e.destroy n, as ++ List.replicate n none ++ bs) := by
  induction xs generalizing e as i n with
  | nil => subst hn; simp [destroyObjects]
  | cons x xs ih =>
    subst hn
    have hb : as ++ (x :: xs).map some ++ bs = as ++ some x :: (xs.map some ++ bs) := by simp
    have hget := readObject_split as (xs.map some ++ bs) x hi
    have hset : (as ++ some x :: (xs.map some ++ bs)).set i none
        = as ++ [none] ++ xs.map some ++ bs := by
      rw [set_split _ _ hi]
      simp
    have hrec := ih (e.destroy 1) (as ++ [none]) (i := i + 1) (n := xs.length) (by simp [hi]) rfl
    rw [List.length_cons, destroyObjects, hb, hget]
    simp only [Except.bind, hset, hrec, Account.destroy_destroy]
    simp [List.replicate_succ, Nat.add_comm]

/-- Destroying objects keeps the storage. -/
theorem destroyObjects_length {e : Account} {b : List (Option α)} {i n : ℕ}
    {r : Account × List (Option α)} (h : destroyObjects e b i n = .ok r) : r.2.length = b.length := by
  induction n generalizing e b i with
  | zero => cases h; rfl
  | succ n ih =>
    rw [destroyObjects] at h
    cases hx : readObject b i with
    | error f => simp [hx, Except.bind] at h
    | ok x =>
      simp only [hx, Except.bind] at h
      rw [ih h, List.length_set]

/-- A constructor that returns. -/
theorem construct_split {e : Account} (as bs : List (Option α)) {i : ℕ} (x : α)
    (hi : i = as.length) (he : e.Allows 1) :
    construct e (as ++ none :: bs) i x = .ok (true, e.construct 1, as ++ some x :: bs) := by
  have hget : (as ++ none :: bs)[i]? = some none := by subst hi; simp
  have hne : e.copies ≠ some 0 := fun h => by simpa using he 0 h
  rw [construct, hget]
  simp only [if_neg hne, set_split _ _ hi]

/-- A constructor that throws. -/
theorem construct_split_threw {e : Account} (as bs : List (Option α)) {i : ℕ} (x : α)
    (hi : i = as.length) (he : e.copies = some 0) :
    construct e (as ++ none :: bs) i x = .ok (false, e, as ++ none :: bs) := by
  have hget : (as ++ none :: bs)[i]? = some none := by subst hi; simp
  rw [construct, hget]
  simp only [if_pos he]

theorem copyLoop_split {e : Account} (as : List (Option α)) (done : List α) (bs : List (Option α))
    {first i n : ℕ} (xs : List α) (hfirst : first = as.length) (hi : i = first + done.length)
    (hn : n = xs.length) (he : e.Allows n) :
    copyLoop e (as ++ done.map some ++ List.replicate n none ++ bs) first i xs
      = .ok (true, e.construct n, as ++ (done ++ xs).map some ++ bs) := by
  induction xs generalizing e done i n with
  | nil => subst hn; simp [copyLoop]
  | cons x xs ih =>
    subst hn
    have hc := construct_split (as ++ done.map some) (List.replicate xs.length none ++ bs) (i := i) x
      (by simp [hi, hfirst]) (e := e) fun k hk => by have := he k hk; simp at this; omega
    have hrec := ih (e := e.construct 1) (done ++ [x]) (i := i + 1) (n := xs.length)
      (by simp [hi, Nat.add_assoc]) rfl (Account.Allows.construct (by rwa [Nat.add_comm 1]))
    have hb : as ++ done.map some ++ List.replicate (x :: xs).length none ++ bs
        = as ++ done.map some ++ none :: (List.replicate xs.length none ++ bs) := by
      simp [List.replicate_succ]
    have hb' : as ++ done.map some ++ some x :: (List.replicate xs.length none ++ bs)
        = as ++ (done ++ [x]).map some ++ List.replicate xs.length none ++ bs := by
      simp
    rw [copyLoop, hb, hc]
    simp only [Except.bind, if_true, hb', hrec, Account.construct_construct]
    simp [Nat.add_comm 1]

theorem copyLoop_split_threw {e : Account} (as : List (Option α)) (done : List α)
    (bs : List (Option α)) {first i n k : ℕ} (xs : List α) (hfirst : first = as.length)
    (hi : i = first + done.length) (hn : n = xs.length) (he : e.copies = some k) (hk : k < n) :
    copyLoop e (as ++ done.map some ++ List.replicate n none ++ bs) first i xs
      = .ok (false, (e.construct k).destroy (done.length + k),
          as ++ List.replicate (done.length + n) none ++ bs) := by
  induction xs generalizing e done i n k with
  | nil => subst hn; cases hk
  | cons x xs ih =>
    subst hn
    have hb : as ++ done.map some ++ List.replicate (x :: xs).length none ++ bs
        = as ++ done.map some ++ none :: (List.replicate xs.length none ++ bs) := by
      simp [List.replicate_succ]
    rw [copyLoop, hb]
    rcases Nat.eq_zero_or_pos k with rfl | hpos
    · -- the objects that are there are destroyed
      have hc := construct_split_threw (as ++ done.map some)
        (List.replicate xs.length none ++ bs) (i := i) x (by simp [hi, hfirst]) he
      have hd := destroyObjects_split e as (none :: (List.replicate xs.length none ++ bs)) done
        (i := first) (n := i - first) hfirst (by omega)
      rw [hc]
      simp only [Except.bind, Bool.false_eq_true, if_false, hd, Except.map]
      rw [show i - first = done.length by omega, List.length_cons, List.replicate_add,
        List.replicate_succ]
      simp
    · have hc := construct_split (as ++ done.map some) (List.replicate xs.length none ++ bs) (i := i)
        x (by simp [hi, hfirst]) (e := e) fun j hj => by rw [he] at hj; cases hj; omega
      have hrec := ih (e := e.construct 1) (done ++ [x]) (i := i + 1) (n := xs.length) (k := k - 1)
        (by simp [hi, Nat.add_assoc]) rfl (by simp [Account.construct, he])
        (by rw [List.length_cons] at hk; omega)
      have hb' : as ++ done.map some ++ some x :: (List.replicate xs.length none ++ bs)
          = as ++ (done ++ [x]).map some ++ List.replicate xs.length none ++ bs := by
        simp
      rw [hc]
      simp only [Except.bind, if_true, hb', hrec, Account.construct_construct]
      rw [show 1 + (k - 1) = k by omega, List.length_append, List.length_singleton,
        List.length_cons, show done.length + 1 + (k - 1) = done.length + k by omega,
        show done.length + 1 + xs.length = done.length + (xs.length + 1) by omega]

/-- All of the objects are constructed. -/
theorem uninitializedCopy_split {e : Account} (as bs : List (Option α)) {i n : ℕ} (xs : List α)
    (hi : i = as.length) (hn : n = xs.length) (he : e.Allows n) :
    uninitializedCopy e (as ++ List.replicate n none ++ bs) i xs
      = .ok (true, e.construct n, as ++ xs.map some ++ bs) := by
  simpa [uninitializedCopy] using copyLoop_split as [] bs (i := i) xs hi (by simp) hn he

/-- A constructor throws: the storage is as it was, and the objects constructed are destroyed. -/
theorem uninitializedCopy_split_threw {e : Account} (as bs : List (Option α)) {i n k : ℕ}
    (xs : List α) (hi : i = as.length) (hn : n = xs.length) (he : e.copies = some k) (hk : k < n) :
    uninitializedCopy e (as ++ List.replicate n none ++ bs) i xs
      = .ok (false, (e.construct k).destroy k, as ++ List.replicate n none ++ bs) := by
  simpa [uninitializedCopy] using copyLoop_split_threw as [] bs (i := i) xs hi (by simp) hn he hk

end ObjectStorage
