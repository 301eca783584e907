import Mathlib.Tactic

/-!
# Circular doubly linked lists

Nodes with two links each, which may be missing.

* `Links`: the links of all nodes, with assignments `setNext` and `setPrev`;
* `Ring L h l`: the nodes `l`, from first to last, and the node `h` form a circle;
* `Ring.frame`: the links of other nodes do not matter;
* `Ring.unlink`, `Ring.insert`, `Ring.take`: a node is taken out, a node is put in front of `h`, another
  node takes the place of `h`;
* `Ring.unique`: the links determine the nodes of the ring.
-/

namespace LinkedRing

universe u
variable {N : Type u}

/-- The links of all nodes. -/
structure Links (N : Type u) where
  next : N → Option N
  prev : N → Option N

/-- A link of a node is changed. -/
def Links.setNext [DecidableEq N] (L : Links N) (x : N) (y : Option N) : Links N :=
  ⟨Function.update L.next x y, L.prev⟩

def Links.setPrev [DecidableEq N] (L : Links N) (x : N) (y : Option N) : Links N :=
  ⟨L.next, Function.update L.prev x y⟩

section Assignments

variable [DecidableEq N] (L : Links N) (x : N) (y : Option N) {z : N}

@[simp] theorem prev_setNext : (L.setNext x y).prev = L.prev := rfl

@[simp] theorem next_setPrev : (L.setPrev x y).next = L.next := rfl

@[simp] theorem next_setNext_self : (L.setNext x y).next x = y := Function.update_self _ _ _

@[simp] theorem prev_setPrev_self : (L.setPrev x y).prev x = y := Function.update_self _ _ _

theorem next_setNext_of_ne (h : z ≠ x) : (L.setNext x y).next z = L.next z :=
  Function.update_of_ne h _ _

theorem prev_setPrev_of_ne (h : z ≠ x) : (L.setPrev x y).prev z = L.prev z :=
  Function.update_of_ne h _ _

end Assignments

/-- The two nodes point to each other. -/
def Links.Linked (L : Links N) (a b : N) : Prop := L.next a = some b ∧ L.prev b = some a

/-- A circle through `h` and the nodes of `l`, in this order. -/
structure Ring (L : Links N) (h : N) (l : List N) : Prop where
  path : (h :: (l ++ [h])).IsChain L.Linked
  nodup : (h :: l).Nodup

variable {L L' : Links N} {h h' x p n : N} {l l₁ l₂ : List N}

/-- A path stays one if the links that it uses do. -/
theorem isChain_of_links (hl : l.IsChain L.Linked)
    (hnext : ∀ a ∈ l.dropLast, L'.next a = L.next a) (hprev : ∀ a ∈ l.tail, L'.prev a = L.prev a) :
    l.IsChain L'.Linked := by
  rw [List.isChain_iff_forall_rel_of_append_cons_cons] at hl ⊢
  rintro a b l₁ l₂ rfl
  obtain ⟨hab, hba⟩ := hl rfl
  refine ⟨?_, ?_⟩
  · rw [hnext a (by simp [List.dropLast_append_of_ne_nil]), hab]
  · have hmem : b ∈ (l₁ ++ a :: b :: l₂).tail := by
      cases l₁ <;> simp
    rw [hprev b hmem, hba]

theorem dropLast_ring (h : N) (l : List N) : (h :: (l ++ [h])).dropLast = h :: l := by
  rw [← List.cons_append, List.dropLast_concat]

theorem Ring.frame (hr : Ring L h l) (hnext : ∀ a ∈ h :: l, L'.next a = L.next a)
    (hprev : ∀ a ∈ h :: l, L'.prev a = L.prev a) : Ring L' h l := by
  refine ⟨isChain_of_links hr.path (fun a ha => hnext a ?_) fun a ha => hprev a ?_, hr.nodup⟩
  · rwa [dropLast_ring] at ha
  · rw [List.tail_cons, List.mem_append, List.mem_singleton] at ha
    exact List.mem_cons.2 ha.symm

/-- A node that is linked with itself. -/
theorem ring_singleton (hn : L.next h = some h) (hp : L.prev h = some h) : Ring L h [] :=
  ⟨List.IsChain.cons_cons ⟨hn, hp⟩ (List.isChain_singleton h), List.nodup_singleton h⟩

/-- The neighbours of a node. -/
theorem Ring.neighbours (hr : Ring L h (l₁ ++ x :: l₂)) :
    (∃ p A, h :: l₁ = A ++ [p] ∧ L.prev x = some p) ∧
      ∃ n B, l₂ ++ [h] = n :: B ∧ L.next x = some n := by
  have hpath := hr.path
  rw [List.append_assoc, List.cons_append, ← List.cons_append] at hpath
  refine ⟨?_, ?_⟩
  · obtain ⟨A, p, hA⟩ := List.eq_nil_or_concat (h :: l₁) |>.resolve_left (by simp)
    refine ⟨p, A, by simpa using hA, ?_⟩
    rw [hA, List.concat_eq_append, List.append_assoc, List.singleton_append] at hpath
    exact (List.isChain_append_cons_cons.1 hpath).2.1.2
  · cases hB : l₂ ++ [h] with
    | nil => simp at hB
    | cons n B =>
      refine ⟨n, B, rfl, ?_⟩
      rw [hB] at hpath
      exact (List.isChain_append_cons_cons.1 hpath).2.1.1

/-- The neighbours of `h`. -/
theorem Ring.ends (hr : Ring L h l) :
    (∃ n B, l ++ [h] = n :: B ∧ L.next h = some n) ∧
      ∃ p A, h :: l = A ++ [p] ∧ L.prev h = some p := by
  have hpath := hr.path
  refine ⟨?_, ?_⟩
  · cases hB : l ++ [h] with
    | nil => simp at hB
    | cons n B =>
      rw [hB] at hpath
      exact ⟨n, B, rfl, (List.isChain_cons_cons.1 hpath).1.1⟩
  · obtain ⟨A, p, hA⟩ := List.eq_nil_or_concat (h :: l) |>.resolve_left (by simp)
    refine ⟨p, A, by simpa using hA, ?_⟩
    rw [← List.cons_append, hA, List.concat_eq_append, List.append_assoc, List.singleton_append,
      List.isChain_append_cons_cons] at hpath
    exact hpath.2.1.2

/-- The neighbours of `h` are nodes of the list, if it has any. -/
theorem Ring.ends_mem (hr : Ring L h l) (hl : l ≠ []) :
    (∃ n ∈ l, L.next h = some n) ∧ ∃ p ∈ l, L.prev h = some p := by
  obtain ⟨⟨n, B, hB, hn⟩, p, A, hA, hp⟩ := hr.ends
  refine ⟨⟨n, ?_, hn⟩, p, ?_, hp⟩
  · cases l with
    | nil => exact absurd rfl hl
    | cons y ys =>
      rw [List.cons_append] at hB
      rw [(List.cons.inj hB).1]
      exact List.mem_cons_self
  · cases A with
    | nil => simp [hl] at hA
    | cons y A =>
      rw [List.cons_append] at hA
      rw [(List.cons.inj hA).2]
      simp

theorem Ring.next_eq_some_self_iff (hr : Ring L h l) : L.next h = some h ↔ l = [] := by
  obtain ⟨⟨n, B, hB, hn⟩, -⟩ := hr.ends
  rw [hn, Option.some.injEq]
  cases l with
  | nil =>
    cases hB
    simp
  | cons a l =>
    cases hB
    have hne : n ≠ h := by
      rintro rfl
      exact (List.nodup_cons.1 hr.nodup).1 List.mem_cons_self
    simp [hne]

/-- A node is taken out: its neighbours are linked. -/
theorem Ring.unlink (hr : Ring L h (l₁ ++ x :: l₂)) (hp : L.prev x = some p)
    (hn : L.next x = some n) (hpn : L'.Linked p n)
    (hnext : ∀ a ∈ h :: (l₁ ++ l₂), a ≠ p → L'.next a = L.next a)
    (hprev : ∀ a ∈ h :: (l₁ ++ l₂), a ≠ n → L'.prev a = L.prev a) : Ring L' h (l₁ ++ l₂) := by
  obtain ⟨⟨p', A, hA, hp'⟩, n', B, hB, hn'⟩ := hr.neighbours
  rw [hp] at hp'
  rw [hn] at hn'
  cases hp'
  cases hn'
  have hpath := hr.path
  rw [List.append_assoc, List.cons_append, ← List.cons_append, hA, hB] at hpath
  have hnodup := hr.nodup
  have hnodup' : (h :: (l₁ ++ l₂)).Nodup :=
    hnodup.sublist (((List.sublist_cons_self x l₂).append_left l₁).cons_cons h)
  refine ⟨?_, hnodup'⟩
  have hmemA : ∀ a ∈ A ++ [p], a ∈ h :: (l₁ ++ l₂) := by
    rw [← hA]
    intro a ha
    simp only [List.mem_cons, List.mem_append] at ha ⊢
    tauto
  have hmemB : ∀ a ∈ n :: B, a ∈ h :: (l₁ ++ l₂) := by
    rw [← hB]
    intro a ha
    simp only [List.mem_cons, List.mem_append, List.not_mem_nil, or_false] at ha ⊢
    tauto
  -- No node before `p` is `p`, and none after `n` is `n`.
  have hAp : p ∉ A := by
    have hd : (A ++ [p]).Nodup := by
      rw [← hA]
      exact hnodup'.sublist ((List.sublist_append_left l₁ l₂).cons_cons h)
    exact fun hm => (List.nodup_append.1 hd).2.2 p hm p (List.mem_singleton_self p) rfl
  have hperm : (l₁ ++ (l₂ ++ [h])).Nodup := by
    have hcomm : ((l₁ ++ l₂) ++ [h]).Perm ([h] ++ (l₁ ++ l₂)) := List.perm_append_comm
    rw [← List.append_assoc]
    exact hcomm.nodup_iff.2 hnodup'
  have hBn : n ∉ B := by
    have hd : (n :: B).Nodup := by
      rw [← hB]
      exact (List.nodup_append.1 hperm).2.1
    exact (List.nodup_cons.1 hd).1
  have hnA : n ∉ l₁ := fun hm => (List.nodup_append.1 hperm).2.2 n hm n (by rw [hB]; simp) rfl
  have hpB : p ∉ l₂ := by
    have hd := hnodup'
    rw [← List.cons_append, hA] at hd
    exact fun hm => (List.nodup_append.1 hd).2.2 p (by simp) p hm rfl
  have hfirst : (A ++ [p]).IsChain L'.Linked := by
    refine isChain_of_links hpath.left_of_append (fun a ha => hnext a ?_ ?_) fun a ha => hprev a ?_ ?_
    · exact hmemA a (List.dropLast_subset _ ha)
    · rw [List.dropLast_concat] at ha
      exact fun heq => hAp (heq ▸ ha)
    · exact hmemA a (List.mem_of_mem_tail ha)
    · rw [← hA, List.tail_cons] at ha
      exact fun heq => hnA (heq ▸ ha)
  have hlast : (n :: B).IsChain L'.Linked := by
    have hchain : (n :: B).IsChain L.Linked := hpath.right_of_append.tail
    refine isChain_of_links hchain (fun a ha => hnext a ?_ ?_) fun a ha => hprev a ?_ ?_
    · exact hmemB a (List.dropLast_subset _ ha)
    · rw [← hB, List.dropLast_concat] at ha
      exact fun heq => hpB (heq ▸ ha)
    · exact hmemB a (List.mem_of_mem_tail ha)
    · exact fun heq => hBn (heq ▸ ha)
  have hsplit : h :: (l₁ ++ l₂ ++ [h]) = A ++ p :: n :: B := by
    rw [List.append_assoc, ← List.cons_append, hA, hB, List.append_assoc, List.singleton_append]
  rw [hsplit, List.isChain_append_cons_cons]
  exact ⟨hfirst, hpn, hlast⟩

/-- A node is put between the last one and `h`. -/
theorem Ring.insert (hr : Ring L h l) (hx : x ∉ h :: l) (hp : L.prev h = some p)
    (hpx : L'.Linked p x) (hxh : L'.Linked x h) (hnext : ∀ a ∈ h :: l, a ≠ p → L'.next a = L.next a)
    (hprev : ∀ a ∈ l, L'.prev a = L.prev a) : Ring L' h (l ++ [x]) := by
  obtain ⟨-, p', A, hA, hp'⟩ := hr.ends
  rw [hp] at hp'
  cases hp'
  have hpath := hr.path
  rw [← List.cons_append, hA] at hpath
  have hAp : p ∉ A := by
    have hd := hr.nodup
    rw [hA] at hd
    exact fun hm => (List.nodup_append.1 hd).2.2 p hm p (List.mem_singleton_self p) rfl
  refine ⟨?_, ?_⟩
  · have hfirst : (A ++ [p]).IsChain L'.Linked := by
      refine isChain_of_links hpath.left_of_append (fun a ha => hnext a ?_ ?_) fun a ha => hprev a ?_
      · rw [hA]
        exact List.dropLast_subset _ ha
      · rw [List.dropLast_concat] at ha
        exact fun heq => hAp (heq ▸ ha)
      · rwa [← hA, List.tail_cons] at ha
    have hsplit : h :: (l ++ [x] ++ [h]) = A ++ p :: x :: [h] := by
      rw [List.append_assoc, ← List.cons_append, hA, List.append_assoc]
      rfl
    rw [hsplit, List.isChain_append_cons_cons, List.isChain_pair]
    exact ⟨hfirst, hpx, hxh⟩
  · rw [← List.cons_append]
    refine List.nodup_append.2 ⟨hr.nodup, List.nodup_singleton x, fun a ha b hb => ?_⟩
    rw [List.mem_singleton.1 hb]
    exact fun heq => hx (heq ▸ ha)

/-- Another node takes the place of `h` in a ring that has more nodes. -/
theorem Ring.take (hr : Ring L h l) (hl : l ≠ []) (hh : h' ∉ l) (hn : L.next h = some n)
    (hp : L.prev h = some p) (hhn : L'.Linked h' n) (hph : L'.Linked p h')
    (hnext : ∀ a ∈ l, a ≠ p → L'.next a = L.next a)
    (hprev : ∀ a ∈ l, a ≠ n → L'.prev a = L.prev a) : Ring L' h' l := by
  obtain ⟨⟨n', B, hB, hn'⟩, p', A, hA, hp'⟩ := hr.ends
  rw [hn] at hn'
  rw [hp] at hp'
  cases hn'
  cases hp'
  have hpath := hr.path
  have hnodup := (List.nodup_cons.1 hr.nodup).2
  -- The first node is `n`, and the last one is `p`.
  obtain ⟨l₁, rfl⟩ : ∃ l₁, l = n :: l₁ := by
    cases l with
    | nil => exact absurd rfl hl
    | cons a l =>
      cases hB
      exact ⟨l, rfl⟩
  obtain ⟨l₂, hl₂⟩ : ∃ l₂, n :: l₁ = l₂ ++ [p] := by
    cases A with
    | nil => simp at hA
    | cons a A =>
      refine ⟨A, ?_⟩
      rw [List.cons_append] at hA
      exact (List.cons.inj hA).2
  refine ⟨?_, List.nodup_cons.2 ⟨hh, hnodup⟩⟩
  have hmid : (n :: l₁).IsChain L'.Linked := by
    have hchain : (n :: l₁).IsChain L.Linked := hpath.tail.left_of_append
    refine isChain_of_links hchain (fun a ha => hnext a (List.dropLast_subset _ ha) ?_)
      fun a ha => hprev a (List.mem_of_mem_tail ha) ?_
    · have hd := hnodup
      rw [hl₂] at ha hd
      rw [List.dropLast_concat] at ha
      exact fun heq => (List.nodup_append.1 hd).2.2 a ha a (by simp [heq]) rfl
    · exact fun heq => (List.nodup_cons.1 hnodup).1 (heq ▸ ha)
  rw [List.cons_append, List.isChain_cons_cons]
  refine ⟨hhn, ?_⟩
  rw [← List.cons_append, hl₂, List.append_assoc, List.singleton_append,
    List.isChain_append_cons_cons]
  rw [hl₂] at hmid
  exact ⟨hmid, hph, List.isChain_singleton h'⟩

/-- What follows a node is determined by the links. -/
theorem isChain_unique {a : N} (h₁ : (a :: (l₁ ++ [h])).IsChain L.Linked)
    (h₂ : (a :: (l₂ ++ [h])).IsChain L.Linked) (hd₁ : h ∉ l₁) (hd₂ : h ∉ l₂) : l₁ = l₂ := by
  induction l₁ generalizing a l₂ with
  | nil =>
    cases l₂ with
    | nil => rfl
    | cons b l₂ =>
      have ha := (List.isChain_cons_cons.1 h₁).1.1
      rw [(List.isChain_cons_cons.1 h₂).1.1] at ha
      cases ha
      exact absurd List.mem_cons_self hd₂
  | cons b l₁ ih =>
    cases l₂ with
    | nil =>
      have ha := (List.isChain_cons_cons.1 h₁).1.1
      rw [(List.isChain_cons_cons.1 h₂).1.1] at ha
      cases ha
      exact absurd List.mem_cons_self hd₁
    | cons c l₂ =>
      obtain ⟨hab, h₁⟩ := List.isChain_cons_cons.1 h₁
      obtain ⟨hac, h₂⟩ := List.isChain_cons_cons.1 h₂
      have hbc : b = c := Option.some.inj (hab.1.symm.trans hac.1)
      subst hbc
      rw [ih h₁ h₂ (fun hm => hd₁ (List.mem_cons_of_mem b hm)) fun hm =>
        hd₂ (List.mem_cons_of_mem b hm)]

theorem Ring.unique (h₁ : Ring L h l₁) (h₂ : Ring L h l₂) : l₁ = l₂ :=
  isChain_unique h₁.path h₂.path (List.nodup_cons.1 h₁.nodup).1 (List.nodup_cons.1 h₂.nodup).1

end LinkedRing
