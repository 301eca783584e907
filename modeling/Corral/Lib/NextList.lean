import Mathlib.Tactic

/-!
# Singly linked lists

* `IsList next p l`: from the pointer `p` on, the members are linked through `next` as in the list `l`;
* `IsList.congr`, `IsList.update`: only the links of the members matter;
* `IsList.concat`: a member is linked to the last one;
* `collect`: the members, up to some number of them.
-/

namespace NextList

variable {K : Type*} {next next' : K → Option K} {p : Option K} {l l' : List K} {x y : K}

/-- The members are linked as in the list, of which the last one has no next one. -/
def IsList (next : K → Option K) : Option K → List K → Prop
  | p, [] => p = none
  | p, x :: l => p = some x ∧ IsList next (next x) l

theorem isList_none : IsList next none l ↔ l = [] := by
  cases l with
  | nil => exact ⟨fun _ => rfl, fun _ => rfl⟩
  | cons x l => exact ⟨fun h => (Option.some_ne_none x h.1.symm).elim, fun h => absurd h (by simp)⟩

theorem isList_some : IsList next (some x) l ↔ ∃ l', l = x :: l' ∧ IsList next (next x) l' := by
  cases l with
  | nil => exact ⟨fun h => (Option.some_ne_none x h).elim, fun ⟨_, h, _⟩ => absurd h (by simp)⟩
  | cons y l =>
    constructor
    · rintro ⟨⟨⟩, h⟩
      exact ⟨l, rfl, h⟩
    · rintro ⟨l', heq, h⟩
      cases heq
      exact ⟨rfl, h⟩

theorem IsList.ptr_eq (h : IsList next p l) : p = l.head? := by
  cases l with
  | nil => exact h
  | cons x l => exact h.1

theorem IsList.congr (h : IsList next p l) (heq : ∀ y ∈ l, next' y = next y) : IsList next' p l := by
  induction l generalizing p with
  | nil => exact h
  | cons x l ih =>
    refine ⟨h.1, ?_⟩
    rw [heq x List.mem_cons_self]
    exact ih h.2 fun y hy => heq y (List.mem_cons_of_mem x hy)

theorem IsList.update [DecidableEq K] (h : IsList next p l) (hx : x ∉ l) (v : Option K) :
    IsList (Function.update next x v) p l := by
  refine h.congr fun y hy => Function.update_of_ne ?_ _ _
  rintro rfl
  exact hx hy

/-- A member is linked to the last one. -/
theorem IsList.concat (h : IsList next p l) (hlast : l.getLast? = some y) (hnodup : l.Nodup)
    (hy : next' y = some x) (hx : next' x = none) (heq : ∀ z ∈ l, z ≠ y → next' z = next z) :
    IsList next' p (l ++ [x]) := by
  induction l generalizing p with
  | nil => cases hlast
  | cons z l ih =>
    obtain ⟨hz, hnodup⟩ := List.nodup_cons.1 hnodup
    refine ⟨h.1, ?_⟩
    cases l with
    | nil =>
      have hz : z = y := by simpa using hlast
      rw [hz, hy]
      exact ⟨rfl, hx⟩
    | cons u l =>
      have hne : z ≠ y := by
        rintro rfl
        exact hz (List.mem_of_getLast? (by simpa using hlast))
      rw [heq z List.mem_cons_self hne]
      exact ih h.2 (by simpa using hlast) hnodup fun w hw => heq w (List.mem_cons_of_mem z hw)

/-- The members from a pointer on, but not more than `n` of them. -/
def collect (next : K → Option K) : ℕ → Option K → List K
  | _, none => []
  | 0, some _ => []
  | n + 1, some x => x :: collect next n (next x)

theorem IsList.collect_eq (h : IsList next p l) {n : ℕ} (hn : l.length ≤ n) :
    collect next n p = l := by
  induction l generalizing p n with
  | nil =>
    subst h
    cases n <;> rfl
  | cons x l ih =>
    obtain ⟨rfl, h⟩ := h
    cases n with
    | zero => simp at hn
    | succ n =>
      have hrest := ih h (Nat.le_of_succ_le_succ hn)
      rw [collect, hrest]

end NextList
