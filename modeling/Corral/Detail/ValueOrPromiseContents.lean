import Corral.Lib.Lockstep
import Corral.Detail.ValueOrPromise

/-!
# `detail::ValueOrPromise`: what an object holds

* `Content`: nothing, a promise, a value, or what is left of a value that was taken; `Contents`: the
  objects with what they hold, and the calls on them;
* `Represents`: the word stands for the content, be the value in the word, shifted in it, or on the heap;
* `isEmpty_iff`, `isConsumed_iff`, `hasPromise_iff`, `hasValue_iff`: what the observers say of a word;
* `ofValue_represents`, `Represents.take`: a value goes into a word and comes out of it.
-/

namespace Corral.ValueOrPromise

open TaggedWord

variable {n : ℕ} {V : Type*} {O : Type*}

/-! ### Contents -/

/-- What an object holds. -/
inductive Content (n : ℕ) (V : Type*)
  | empty
  | consumed
  | promise (p : Word n)
  | value (v : V)

/-- The objects with what they hold, the promises that have been destroyed, and what the calls have
returned. -/
structure Contents (O : Type*) (n : ℕ) (V : Type*) where
  content : O → Option (Content n V)
  destroyed : List (Word n)
  outputs : List (Output n V)

def Contents.init : Contents O n V := ⟨fun _ => none, [], []⟩

variable [DecidableEq O]

def Contents.put (t : Contents O n V) (o : O) (c : Option (Content n V)) : Contents O n V :=
  { t with content := Function.update t.content o c }

def Contents.output (t : Contents O n V) (x : Output n V) : Contents O n V :=
  { t with outputs := t.outputs ++ [x] }

/-- A promise is destroyed with the object that holds it. -/
def Contents.release (t : Contents O n V) : Content n V → Contents O n V
  | .promise p => { t with destroyed := t.destroyed ++ [p] }
  | _ => t

def Contents.create (t : Contents O n V) (o : O) (f : Except Fault (Contents O n V)) :
    Except Fault (Contents O n V) :=
  if (t.content o).isSome then .error .lifetime else f

def Contents.withContent (t : Contents O n V) (o : O)
    (f : Content n V → Except Fault (Contents O n V)) : Except Fault (Contents O n V) :=
  match t.content o with
  | none => .error .lifetime
  | some c => f c

/-- One call. -/
def Contents.step (t : Contents O n V) : Action O n V → Except Fault (Contents O n V)
  | .construct o => t.create o (.ok (t.put o (some .empty)))
  | .constructPromise o p => t.create o (.ok (t.put o (some (.promise p))))
  | .constructValue o v _ => t.create o (.ok (t.put o (some (.value v))))
  | .moveConstruct o rhs => t.create o
    (t.withContent rhs fun c => .ok ((t.put rhs (some .empty)).put o (some c)))
  | .moveAssign o rhs => t.withContent rhs fun c =>
    (t.put rhs (some .empty)).withContent o fun old =>
      .ok (((t.put rhs (some .empty)).put o (some c)).release old)
  -- An empty object has a null pointer for a promise.
  | .promise o => t.withContent o fun
    | .empty => .ok (t.output (.promise 0))
    | .promise p => .ok (t.output (.promise p))
    | _ => .error .assertion
  | .takePromise o => t.withContent o fun
    | .promise p => .ok ((t.put o (some .empty)).output (.promise p))
    | _ => .error .assertion
  | .takeValue o => t.withContent o fun
    | .value v => .ok ((t.put o (some .consumed)).output (.value v))
    | _ => .error .assertion
  | .destroy o => t.withContent o fun c => .ok ((t.put o none).release c)

/-! ### Tags -/

variable {ty : ValueType n V} {i : Inline n V} {a b : Word n} {v : V} {heap heap' : Word n → Option V}
  {c : Content n V} {j k : ℕ}

theorem tag_and_mask (hk : k < 4) : BitVec.ofNat (8 * n) k &&& mask = BitVec.ofNat (8 * n) k := by
  apply BitVec.eq_of_getLsbD_eq
  intro i hi
  simp only [mask, typeBits, BitVec.getLsbD_and, BitVec.getLsbD_ofNat, getLsbD_mask]
  by_cases hi₂ : i < 2
  · simp [hi, hi₂]
  · have hpow : k < 2 ^ i := calc
      k < 2 ^ 2 := hk
      _ ≤ 2 ^ i := Nat.pow_le_pow_right (by decide) (by omega)
    simp [Nat.testBit_lt_two_pow hpow]

/-- A word has room for the tags. -/
theorem tag_inj (hn : 0 < n) (hj : j < 4) (hk : k < 4) :
    BitVec.ofNat (8 * n) j = BitVec.ofNat (8 * n) k ↔ j = k := by
  have hpow : 4 ≤ 2 ^ (8 * n) := calc
    4 = 2 ^ 2 := rfl
    _ ≤ 2 ^ (8 * n) := Nat.pow_le_pow_right (by decide) (by omega)
  rw [← BitVec.toNat_inj, BitVec.toNat_ofNat, BitVec.toNat_ofNat,
    Nat.mod_eq_of_lt (hj.trans_le hpow), Nat.mod_eq_of_lt (hk.trans_le hpow)]

theorem take_or (ha : a &&& mask = 0) (hk : k < 4) :
    take (a ||| BitVec.ofNat (8 * n) k) = (BitVec.ofNat (8 * n) k, a) := by
  unfold take
  rw [tag_or ha (tag_and_mask hk), payload_or ha (tag_and_mask hk)]

theorem or_tag_inj (hn : 0 < n) (ha : a &&& mask = 0) (hb : b &&& mask = 0) (hj : j < 4) (hk : k < 4) :
    a ||| BitVec.ofNat (8 * n) j = b ||| BitVec.ofNat (8 * n) k ↔ a = b ∧ j = k := by
  refine ⟨fun h => ?_, fun h => by rw [h.1, h.2]⟩
  obtain ⟨hab, hjk⟩ := or_inj ha hb (tag_and_mask hj) (tag_and_mask hk) h
  exact ⟨hab, (tag_inj hn hj hk).1 hjk⟩

theorem zero_and_mask : (0 : Word n) &&& mask = 0 := BitVec.zero_and

theorem isPointer_iff : isPointer a = true ↔ a ≠ 0 ∧ a &&& mask = 0 := by
  simp [isPointer]

/-! ### Words and contents -/

/-- The word stands for the content. -/
inductive Represents (ty : ValueType n V) (heap : Word n → Option V) : Word n → Content n V → Prop
  | empty : Represents ty heap (0 ||| isPromise) .empty
  | consumed : Represents ty heap (0 ||| isValuePtr) .consumed
  | promise {p : Word n} (hp : isPointer p) : Represents ty heap (p ||| isPromise) (.promise p)
  | inline {i : Inline n V} {v : V} (hi : ty.inline = some i) (h : i.store v &&& mask = 0) :
    Represents ty heap (i.store v ||| isInlineValue) (.value v)
  | shifted {i : Inline n V} {v : V} (hi : ty.inline = some i)
    (h : i.store v &&& (mask <<< (8 * n - typeBits)) = 0) :
    Represents ty heap ((i.store v <<< typeBits) ||| isShiftedInlineValue) (.value v)
  | pointer {a : Word n} {v : V} (ha : isPointer a) (h : heap a = some v) :
    Represents ty heap (a ||| isValuePtr) (.value v)

theorem represents_zero : Represents ty heap 0 .empty := by
  have h₀ : (0 : Word n) ||| isPromise = 0 := by simp [isPromise]
  exact h₀ ▸ .empty

/-- The word is a pointer to the value at `a`. -/
def PointsTo (b a : Word n) : Prop := isPointer a ∧ b = a ||| isValuePtr

/-- The heap matters only where the word points to. -/
theorem Represents.frame (h : Represents ty heap b c)
    (hh : ∀ a, PointsTo b a → heap' a = heap a) : Represents ty heap' b c := by
  cases h with
  | empty => exact .empty
  | consumed => exact .consumed
  | promise hp => exact .promise hp
  | inline hi h => exact .inline hi h
  | shifted hi h => exact .shifted hi h
  | pointer ha h => exact .pointer ha ((hh _ ⟨ha, rfl⟩).trans h)

/-- A word consists of a payload and a tag, which tell what the content is. -/
theorem Represents.tagged (h : Represents ty heap b c) :
    ∃ a k, a &&& mask = 0 ∧ k < 4 ∧ b = a ||| BitVec.ofNat (8 * n) k ∧
      (k = 0 ↔ c = .empty ∨ ∃ p, c = .promise p) ∧ (a = 0 ∧ k = 0 ↔ c = .empty) ∧
      (a = 0 ∧ k = 1 ↔ c = .consumed) := by
  cases h with
  | empty => exact ⟨0, 0, zero_and_mask, by decide, rfl, by simp, by simp, by simp⟩
  | consumed => exact ⟨0, 1, zero_and_mask, by decide, rfl, by simp, by simp, by simp⟩
  | promise hp =>
    obtain ⟨hne, hmask⟩ := isPointer_iff.1 hp
    exact ⟨_, 0, hmask, by decide, rfl, by simp, ⟨fun h => absurd h.1 hne, nofun⟩, by simp⟩
  | inline hi h => exact ⟨_, 2, h, by decide, rfl, by simp, by simp, by simp⟩
  | shifted hi h => exact ⟨_, 3, shiftLeft_and_mask _ _, by decide, rfl, by simp, by simp, by simp⟩
  | pointer ha h =>
    obtain ⟨hne, hmask⟩ := isPointer_iff.1 ha
    exact ⟨_, 1, hmask, by decide, rfl, by simp, by simp, ⟨fun h => absurd h.1 hne, nofun⟩⟩

/-! ### Observers -/

theorem Represents.isEmpty_iff (h : Represents ty heap b c) : isEmpty b = true ↔ c = .empty := by
  obtain ⟨a, k, ha, hk, rfl, -, hempty, -⟩ := h.tagged
  have h₀ : (0 : Word n) = 0 ||| BitVec.ofNat (8 * n) 0 := by simp
  rw [← hempty, ← or_tag_inj ty.word ha zero_and_mask hk (by decide), ← h₀]
  exact beq_iff_eq

theorem Represents.eq_of_empty (h : Represents ty heap b .empty) : b = 0 :=
  beq_iff_eq.1 (h.isEmpty_iff.2 rfl)

theorem Represents.isConsumed_iff (h : Represents ty heap b c) :
    isConsumed b = true ↔ c = .consumed := by
  obtain ⟨a, k, ha, hk, rfl, -, -, hconsumed⟩ := h.tagged
  have h₁ : (isValuePtr : Word n) = 0 ||| BitVec.ofNat (8 * n) 1 := by simp [isValuePtr]
  rw [← hconsumed, ← or_tag_inj ty.word ha zero_and_mask hk (by decide), ← h₁]
  exact beq_iff_eq

theorem Represents.hasPromise_iff (h : Represents ty heap b c) :
    hasPromise b = true ↔ c = .empty ∨ ∃ p, c = .promise p := by
  obtain ⟨a, k, ha, hk, rfl, hpromise, -, -⟩ := h.tagged
  unfold hasPromise
  rw [← hpromise, tag_or ha (tag_and_mask hk), beq_iff_eq]
  exact tag_inj ty.word hk (by decide)

/-- The pointer to a promise is the word itself. -/
theorem Represents.eq_of_promise {p : Word n} (h : Represents ty heap b (.promise p)) : b = p := by
  cases h
  exact BitVec.or_zero

theorem Represents.isPointer_of_promise {p : Word n} (h : Represents ty heap b (.promise p)) :
    isPointer p := by
  cases h with
  | promise hp => exact hp

theorem Represents.hasValue_iff (h : Represents ty heap b c) :
    hasValue b = true ↔ c = .consumed ∨ ∃ v, c = .value v := by
  have hp := h.hasPromise_iff
  unfold hasValue
  cases c <;> simp_all

/-! ### Values in words -/

/-- The bytes of a value are read back. -/
theorem Inline.load_store (i : Inline n V) (v : V) : i.load (i.store v) = v := by
  unfold Inline.load Inline.store
  by_cases he : i.isEmpty = true
  · exact i.value_isEmpty he _ v
  · have hle : 8 * i.size ≤ 8 * n := Nat.mul_le_mul_left 8 i.size_le
    rw [if_neg he, BitVec.setWidth_setWidth_of_le _ hle, BitVec.setWidth_eq, i.value_bytes]

/-- The word that a value is stored in. -/
theorem ofValue_represents (h : ofValue ty v = some b) : Represents ty heap b (.value v) := by
  unfold ofValue at h
  cases hi : ty.inline with
  | none => simp [hi] at h
  | some i =>
    simp only [hi] at h
    by_cases hlow : i.store v &&& mask = 0
    · rw [if_pos hlow] at h
      cases h
      exact .inline hi hlow
    · rw [if_neg hlow] at h
      by_cases hhigh : i.store v &&& (mask <<< (8 * n - typeBits)) = 0
      · rw [if_pos hhigh] at h
        cases h
        exact .shifted hi hhigh
      · rw [if_neg hhigh] at h
        cases h

/-! ### Pointers -/

theorem PointsTo.tag_eq (hn : 0 < n) (ha : a &&& mask = 0) (hk : k < 4)
    (h : PointsTo (a ||| BitVec.ofNat (8 * n) k) b) : a = b ∧ a ≠ 0 ∧ k = 1 := by
  obtain ⟨hne, hmask⟩ := isPointer_iff.1 h.1
  obtain ⟨rfl, hk⟩ := (or_tag_inj hn ha hmask hk (by decide)).1 h.2
  exact ⟨rfl, hne, hk⟩

theorem PointsTo.unique {a' : Word n} (h : PointsTo b a) (h' : PointsTo b a') : a = a' := by
  obtain ⟨hne, hmask⟩ := isPointer_iff.1 h.1
  obtain ⟨hne', hmask'⟩ := isPointer_iff.1 h'.1
  exact (or_inj hmask hmask' (tag_and_mask (by decide)) (tag_and_mask (by decide))
    (h.2.symm.trans h'.2)).1

/-- The word is not a pointer to a value. -/
def Bare (b : Word n) : Prop := ∀ a, ¬ PointsTo b a

theorem bare_of_tag (hn : 0 < n) (ha : a &&& mask = 0) (hk : k < 4) (hne : k ≠ 1) :
    Bare (a ||| BitVec.ofNat (8 * n) k) := by
  intro a' h
  exact hne (h.tag_eq hn ha hk).2.2

theorem bare_empty (hn : 0 < n) : Bare (0 : Word n) := by
  have h₀ : (0 : Word n) = 0 ||| BitVec.ofNat (8 * n) 0 := by simp
  rw [h₀]
  exact bare_of_tag hn zero_and_mask (by decide) (by decide)

theorem bare_consumed (hn : 0 < n) : Bare (consumed : Word n) := by
  intro a h
  exact (h.tag_eq hn zero_and_mask (by decide)).2.1 rfl

/-- Where a word points to is the value that it stands for. -/
theorem Represents.pointsTo (h : Represents ty heap b c) (hp : PointsTo b a) :
    ∃ v, c = .value v ∧ heap a = some v := by
  cases h with
  | empty => exact absurd hp (bare_of_tag ty.word zero_and_mask (by decide) (by decide) a)
  | consumed => exact absurd hp (bare_consumed ty.word a)
  | promise h =>
    exact absurd hp (bare_of_tag ty.word (isPointer_iff.1 h).2 (by decide) (by decide) a)
  | inline _ h => exact absurd hp (bare_of_tag ty.word h (by decide) (by decide) a)
  | shifted _ h =>
    exact absurd hp (bare_of_tag ty.word (shiftLeft_and_mask _ _) (by decide) (by decide) a)
  | pointer ha h =>
    obtain ⟨rfl, -, -⟩ := hp.tag_eq ty.word (isPointer_iff.1 ha).2 (by decide)
    exact ⟨_, rfl, h⟩

/-- A word in which a value is stored is not a pointer. -/
theorem bare_ofValue (h : ofValue ty v = some b) : Bare b := by
  intro a hp
  have hrep : Represents ty (fun _ => none) b (.value v) := ofValue_represents h
  obtain ⟨w, hw, hnone⟩ := hrep.pointsTo hp
  cases hnone

end Corral.ValueOrPromise
