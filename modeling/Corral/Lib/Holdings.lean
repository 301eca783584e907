import Mathlib.Tactic

/-!
# What the members of a family hold

A family of members in states, and what a member holds in its state: a number, or a multiset of things.
The sum is what all of them hold.

* `sum_update_eq`: a member changes its state and holds the same;
* `sum_update_gain`, `sum_update_loss`: it gets something, or gives it away;
* `eq_of_mem`: what is held once is held by one member;
* `coe_concat_add`: something goes from the members to a list.
-/

namespace Holdings

variable {ι α M : Type*} [DecidableEq ι] [AddCommMonoid M] {s : Finset ι} {i : ι} {g : ι → α → M}
  {w : ι → α} {v : α} {m : M}

theorem sum_update_gain (hi : i ∈ s) (h : g i v = g i (w i) + m) :
    ∑ j ∈ s, g j (Function.update w i v j) = ∑ j ∈ s, g j (w j) + m := by
  have hrest : ∑ j ∈ s.erase i, g j (Function.update w i v j) = ∑ j ∈ s.erase i, g j (w j) :=
    Finset.sum_congr rfl fun j hj => by rw [Function.update_of_ne (Finset.ne_of_mem_erase hj)]
  calc ∑ j ∈ s, g j (Function.update w i v j)
      = g i (Function.update w i v i) + ∑ j ∈ s.erase i, g j (Function.update w i v j) :=
        (Finset.add_sum_erase s _ hi).symm
    _ = g i (w i) + m + ∑ j ∈ s.erase i, g j (w j) := by rw [Function.update_self, hrest, h]
    _ = g i (w i) + ∑ j ∈ s.erase i, g j (w j) + m := add_right_comm _ _ _
    _ = ∑ j ∈ s, g j (w j) + m := by rw [Finset.add_sum_erase s (fun j => g j (w j)) hi]

theorem sum_update_eq (hi : i ∈ s) (h : g i v = g i (w i)) :
    ∑ j ∈ s, g j (Function.update w i v j) = ∑ j ∈ s, g j (w j) := by
  rw [sum_update_gain hi (m := 0) (by rw [h, add_zero]), add_zero]

theorem sum_update_loss (hi : i ∈ s) (h : g i (w i) = g i v + m) :
    ∑ j ∈ s, g j (w j) = ∑ j ∈ s, g j (Function.update w i v j) + m := by
  have hback : Function.update (Function.update w i v) i (w i) = w := by
    rw [Function.update_idem, Function.update_eq_self]
  have hgain := sum_update_gain (s := s) (g := g) (w := Function.update w i v) (v := w i) (m := m) hi
    (by rw [Function.update_self, h])
  rwa [hback] at hgain

/-- What is held once is held by one member. -/
theorem eq_of_mem {β : Type*} {f : ι → Multiset β} {x : β} {j : ι} (h : (∑ k ∈ s, f k).Nodup)
    (hi : i ∈ s) (hj : j ∈ s) (hxi : x ∈ f i) (hxj : x ∈ f j) : i = j := by
  by_contra hne
  have hrest : x ∈ ∑ k ∈ s.erase i, f k :=
    Multiset.mem_sum.2 ⟨j, Finset.mem_erase.2 ⟨Ne.symm hne, hj⟩, hxj⟩
  rw [← Finset.add_sum_erase s f hi, Multiset.nodup_add] at h
  exact Multiset.disjoint_left.1 h.2.2 hxi hrest

/-- Something goes from the members to a list. -/
theorem coe_concat_add {β : Type*} (l : List β) (x : β) (m : Multiset β) :
    ((l ++ [x] : List β) : Multiset β) + m = l + (m + {x}) := by
  rw [← Multiset.coe_add, Multiset.coe_singleton, add_assoc, add_comm m]

end Holdings
