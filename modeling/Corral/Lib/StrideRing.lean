import Mathlib.Tactic

/-!
# Sequences that go around a ring with a stride

* `Spread f n`: any `n` consecutive members of the sequence `f` are distinct;
* `spread_stride`: so are the first `n` multiples of a stride that is coprime to `n`, modulo `n`;
* `count_map_range_le`: two counters that run over such a sequence, one of them at most `n` ahead of the
  other: it has met no member more than once more often.
-/

namespace StrideRing

variable {α : Type*} {f : ℕ → α} {n d h : ℕ}

/-- Any `n` consecutive members of the sequence are distinct. -/
def Spread (f : ℕ → α) (n : ℕ) : Prop := ∀ a, Set.InjOn f (Set.Ico a (a + n))

theorem spread_stride (hd : d.Coprime n) (h : ℕ) : Spread (fun k => (h + d * k) % n) n := by
  intro a x hx y hy hxy
  have hmod : x ≡ y [MOD n] :=
    Nat.ModEq.cancel_left_of_coprime hd.symm (Nat.ModEq.add_left_cancel' h hxy)
  -- The distance of the two is less than `n`.
  rcases le_total x y with hle | hle
  · have hdvd : n ∣ y - x := (Nat.modEq_iff_dvd' hle).1 hmod
    have hlt : y - x < n := by
      have := hx.1
      have := hy.2
      omega
    have := Nat.eq_zero_of_dvd_of_lt hdvd hlt
    omega
  · have hdvd : n ∣ x - y := (Nat.modEq_iff_dvd' hle).1 hmod.symm
    have hlt : x - y < n := by
      have := hy.1
      have := hx.2
      omega
    have := Nat.eq_zero_of_dvd_of_lt hdvd hlt
    omega

theorem Spread.nodup (hf : Spread f n) (a : ℕ) {k : ℕ} (hk : k ≤ n) :
    ((List.range k).map fun j => f (a + j)).Nodup := by
  refine List.Nodup.map_on (fun x hx y hy hxy => ?_) List.nodup_range
  rw [List.mem_range] at hx hy
  have := hf a (Set.mem_Ico.2 ⟨Nat.le_add_right a x, by omega⟩)
    (Set.mem_Ico.2 ⟨Nat.le_add_right a y, by omega⟩) hxy
  omega

/-- A counter that is ahead by at most `n` has met a member at most once more. -/
theorem Spread.count_map_range_le [DecidableEq α] (hf : Spread f n) {p q : ℕ} (h : p ≤ q + n) (x : α) :
    ((List.range p).map f).count x ≤ ((List.range q).map f).count x + 1 := by
  rcases le_total p q with hle | hle
  · have hsub : ((List.range p).map f).Sublist ((List.range q).map f) :=
      (List.range_sublist.2 hle).map f
    exact (hsub.count_le x).trans (Nat.le_succ _)
  · obtain ⟨k, rfl⟩ := Nat.exists_eq_add_of_le hle
    rw [List.range_add, List.map_append, List.count_append, List.map_map]
    have hnodup : ((List.range k).map (f ∘ (q + ·))).Nodup := hf.nodup q (by omega)
    have := List.nodup_iff_count_le_one.1 hnodup x
    omega

end StrideRing
