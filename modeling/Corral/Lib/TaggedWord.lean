import Mathlib.Tactic

/-!
# Words with a tag in their low bits

* `mask w k`: the low `k` bits of a word of `w` bits;
* `tag_or`, `payload_or`: what is put together from a word with free low bits and a tag comes apart again;
* `shiftLeft_and_mask`, `shiftLeft_shiftRight`: a word whose high bits are free can be shifted to free
  the low ones.
-/

namespace TaggedWord

variable {w k : ℕ} {a b m t u : BitVec w}

/-- The low `k` bits. -/
def mask (w k : ℕ) : BitVec w := BitVec.ofNat w (2 ^ k - 1)

theorem getLsbD_mask (w k i : ℕ) :
    (mask w k).getLsbD i = (decide (i < w) && decide (i < k)) := by
  rw [mask, BitVec.getLsbD_ofNat, Nat.testBit_two_pow_sub_one]

theorem tag_or (ha : a &&& m = 0) (ht : t &&& m = t) : (a ||| t) &&& m = t := by
  rw [BitVec.and_comm, BitVec.and_or_distrib_left, BitVec.and_comm m a, ha, BitVec.and_comm m t, ht]
  simp

theorem payload_or (ha : a &&& m = 0) (ht : t &&& m = t) : (a ||| t) &&& ~~~m = a := by
  apply BitVec.eq_of_getLsbD_eq
  intro i hi
  have ha := congrArg (·.getLsbD i) ha
  have ht := congrArg (·.getLsbD i) ht
  simp only [BitVec.getLsbD_and, BitVec.getLsbD_or, BitVec.getLsbD_not, hi] at *
  cases hm : m.getLsbD i <;> simp_all

/-- The payload and the tag are determined. -/
theorem or_inj (ha : a &&& m = 0) (hb : b &&& m = 0) (ht : t &&& m = t) (hu : u &&& m = u)
    (h : a ||| t = b ||| u) : a = b ∧ t = u := by
  refine ⟨?_, ?_⟩
  · rw [← payload_or ha ht, h, payload_or hb hu]
  · rw [← tag_or ha ht, h, tag_or hb hu]

theorem shiftLeft_and_mask (a : BitVec w) (k : ℕ) : (a <<< k) &&& mask w k = 0 := by
  apply BitVec.eq_of_getLsbD_eq
  intro i hi
  simp only [BitVec.getLsbD_and, BitVec.getLsbD_shiftLeft, getLsbD_mask]
  by_cases hk : i < k <;> simp [hk]

theorem shiftLeft_shiftRight (hk : k ≤ w) (ha : a &&& (mask w k <<< (w - k)) = 0) :
    (a <<< k) >>> k = a := by
  apply BitVec.eq_of_getLsbD_eq
  intro i hi
  have ha := congrArg (·.getLsbD i) ha
  simp only [BitVec.getLsbD_and, BitVec.getLsbD_shiftLeft, getLsbD_mask,
    BitVec.getLsbD_ushiftRight] at ha ⊢
  -- A bit is lost if it is one of the high ones.
  by_cases hhigh : k + i < w
  · simp [hhigh]
  · have h₁ : ¬ i < w - k := by omega
    have h₂ : i - (w - k) < w := by omega
    have h₃ : i - (w - k) < k := by omega
    simp only [hi, h₁, h₂, h₃, decide_true, decide_false, Bool.not_false, Bool.and_true] at ha
    simp [hhigh, ha]

end TaggedWord
