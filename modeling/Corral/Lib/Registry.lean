import Mathlib.Tactic
import Mathlib.Data.List.AList

/-!
# Registries of live objects

A registry maps the identities of the live objects of some kind to their records.  It is an
association list without duplicate keys (`AList`); here is the census `count p`, the number of
records that satisfy `p`, the total `total w` of a weight of the records, and how inserting, replacing
and erasing a record changes them.
-/

namespace Registry

variable {κ β : Type*}

/-- A registry of records of type `β`. -/
abbrev Reg (κ β : Type*) := AList (fun _ : κ => β)

/-- The number of records that satisfy `p`. -/
def count (p : β → Bool) (r : Reg κ β) : ℕ := r.entries.countP (fun e => p e.2)

/-- The total weight of the records. -/
def total (w : β → ℕ) (r : Reg κ β) : ℕ := (r.entries.map fun e => w e.2).sum

@[simp] theorem count_empty (p : β → Bool) : count p (∅ : Reg κ β) = 0 := rfl

@[simp] theorem total_empty (w : β → ℕ) : total w (∅ : Reg κ β) = 0 := rfl

variable [DecidableEq κ]

/-- Erasing a record takes its own share out of the census. -/
theorem count_erase (p : β → Bool) {r : Reg κ β} {k : κ} {b : β} (h : r.lookup k = some b) :
    count p (r.erase k) + (if p b then 1 else 0) = count p r := by
  have hb : r.entries.dlookup k = some b := h
  have hmem : k ∈ r.entries.keys := List.dlookup_isSome.1 (by rw [hb]; rfl)
  obtain ⟨b', l₁, l₂, hk, hl, he⟩ := List.exists_of_kerase hmem
  have hbb : b = b' := by
    rw [hl, List.dlookup_append, List.dlookup_eq_none.2 hk] at hb
    simpa using hb.symm
  subst hbb
  have hers : (r.erase k).entries = r.entries.kerase k := rfl
  rw [count, count, hers, he, hl, List.countP_append, List.countP_append, List.countP_cons]
  split_ifs <;> omega

/-- Inserting a new record adds its own share to the census. -/
theorem count_insert_new (p : β → Bool) {r : Reg κ β} {k : κ} (b : β) (h : r.lookup k = none) :
    count p (r.insert k b) = count p r + (if p b then 1 else 0) := by
  rw [count, AList.entries_insert_of_notMem (AList.lookup_eq_none.1 h), List.countP_cons]
  rfl

/-- Replacing a record exchanges the two shares. -/
theorem count_insert (p : β → Bool) {r : Reg κ β} {k : κ} {b : β} (b' : β)
    (h : r.lookup k = some b) :
    count p (r.insert k b') + (if p b then 1 else 0) = count p r + (if p b' then 1 else 0) := by
  have he := count_erase p h
  have hi : count p (r.insert k b') = count p (r.erase k) + (if p b' then 1 else 0) := by
    rw [count, AList.entries_insert, List.countP_cons]
    rfl
  omega

/-- Where the old record, if any, had no share in the census, the new one adds its own. -/
theorem count_insert_of_not (p : β → Bool) {r : Reg κ β} {k : κ} (b' : β)
    (h : ∀ b, r.lookup k = some b → p b = false) :
    count p (r.insert k b') = count p r + (if p b' then 1 else 0) := by
  cases hr : r.lookup k with
  | none => exact count_insert_new p b' hr
  | some b =>
    have hc := count_insert p b' hr
    rw [h b hr] at hc
    simpa using hc

/-- Erasing a record takes its weight away. -/
theorem total_erase (w : β → ℕ) {r : Reg κ β} {k : κ} {b : β} (h : r.lookup k = some b) :
    total w (r.erase k) + w b = total w r := by
  have hb : r.entries.dlookup k = some b := h
  have hmem : k ∈ r.entries.keys := List.dlookup_isSome.1 (by rw [hb]; rfl)
  obtain ⟨b', l₁, l₂, hk, hl, he⟩ := List.exists_of_kerase hmem
  have hbb : b = b' := by
    rw [hl, List.dlookup_append, List.dlookup_eq_none.2 hk] at hb
    simpa using hb.symm
  subst hbb
  have hers : (r.erase k).entries = r.entries.kerase k := rfl
  rw [total, total, hers, he, hl]
  simp only [List.map_append, List.map_cons, List.sum_append, List.sum_cons]
  omega

/-- Inserting a new record adds its weight. -/
theorem total_insert_new (w : β → ℕ) {r : Reg κ β} {k : κ} (b : β) (h : r.lookup k = none) :
    total w (r.insert k b) = total w r + w b := by
  rw [total, AList.entries_insert_of_notMem (AList.lookup_eq_none.1 h), List.map_cons,
    List.sum_cons, Nat.add_comm]
  rfl

/-- Replacing a record exchanges the two weights. -/
theorem total_insert (w : β → ℕ) {r : Reg κ β} {k : κ} {b : β} (b' : β) (h : r.lookup k = some b) :
    total w (r.insert k b') + w b = total w r + w b' := by
  have he := total_erase w h
  have hi : total w (r.insert k b') = total w (r.erase k) + w b' := by
    rw [total, AList.entries_insert, List.map_cons, List.sum_cons, Nat.add_comm]
    rfl
  omega

theorem lookup_insert_eq (r : Reg κ β) (k k' : κ) (b : β) :
    (r.insert k b).lookup k' = if k' = k then some b else r.lookup k' := by
  split_ifs with h
  · subst h; exact AList.lookup_insert _
  · exact AList.lookup_insert_ne h

theorem lookup_erase_eq (r : Reg κ β) (k k' : κ) :
    (r.erase k).lookup k' = if k' = k then none else r.lookup k' := by
  split_ifs with h
  · subst h; exact AList.lookup_erase _ _
  · exact AList.lookup_erase_ne h

/-- What is still there after an erasure was there before. -/
theorem lookup_of_lookup_erase {r : Reg κ β} {k k' : κ} {b : β}
    (h : (r.erase k).lookup k' = some b) : r.lookup k' = some b := by
  rw [lookup_erase_eq] at h
  split_ifs at h
  exact h

end Registry
