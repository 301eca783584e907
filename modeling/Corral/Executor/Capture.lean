import Corral.Executor.Stack

/-!
# `Executor`: what is captured is executed

* `Owed`: a callback has been put into the list of a `capture()` that is in progress, and has not
  returned yet;
* `Owed.step`: it stays so until the callback returns.
-/

namespace Corral.Executor

variable {E L : Type*} [DecidableEq E] [DecidableEq L] {loop : E → L} {s t : State E}
  {e : E} {k id : ℕ} {base : List (Frame E)}

/-- The frame of the `capture()` with this list, or that of its `drain()`. -/
def Frame.serves (l : ListRef E) : Frame E → Prop
  | .capture e k _ => l = .tmp e k
  | .drain _ tasks _ _ => l = tasks
  | .callback _ _ => False

/-- Above the frames `base` the `capture()` with the `k`-th list of `e` is in progress, and the
callback `id`, which has been put into this list, has not returned. -/
def Owed (s : State E) (e : E) (k id : ℕ) (base : List (Frame E)) : Prop :=
  k < s.nextTmp ∧ ∃ above fr, s.stack = above ++ fr :: base ∧ fr.serves (.tmp e k) ∧
    (.callback id ∈ s.lists (.tmp e k) ∨ ∃ l, .callback id l ∈ above)

omit [DecidableEq E] in
/-- Calls are made, and tasks are added to the lists. -/
theorem Owed.mono (new : List (Frame E)) (ho : Owed s e k id base) (hst : t.stack = new ++ s.stack)
    (hl : .callback id ∈ s.lists (.tmp e k) → .callback id ∈ t.lists (.tmp e k))
    (hn : s.nextTmp ≤ t.nextTmp) : Owed t e k id base := by
  obtain ⟨hk, above, fr, hs, hfr, hid⟩ := ho
  refine ⟨by omega, new ++ above, fr, by rw [hst, hs, List.append_assoc], hfr, ?_⟩
  rcases hid with hid | ⟨l, hid⟩
  · exact .inl (hl hid)
  · exact .inr ⟨l, List.mem_append_right _ hid⟩

theorem Owed.drain (ho : Owed s e k id base) (e' : E) (l : ListRef E) :
    Owed (s.drain e' l) e k id base :=
  ho.mono [_] rfl (fun h => h) le_rfl

theorem Owed.unschedule (ho : Owed s e k id base) (e' : E) : Owed (s.unschedule e') e k id base :=
  ho.mono [] rfl (fun h => h) le_rfl

theorem Owed.runOnce (ho : Owed s e k id base) (e' : E) : Owed (s.runOnce e') e k id base := by
  rcases runOnce_cases s e' with ⟨-, h⟩ | ⟨-, h⟩
  · rw [h]
    exact ho.unschedule e'
  · rw [h]
    exact (ho.unschedule e').drain e' _

theorem mem_emplaceBack_of_mem {l l' : ListRef E} {x y : Task E} (h : y ∈ s.lists l') :
    y ∈ (s.emplaceBack l x).lists l' := by
  show y ∈ Function.update s.lists l _ l'
  by_cases hl : l' = l
  · subst hl
    rw [Function.update_self]
    exact List.mem_append_left _ h
  · rwa [Function.update_of_ne hl]

theorem Owed.schedule (ho : Owed s e k id base) (e' : E) : Owed (s.schedule e') e k id base :=
  ho.mono [] rfl mem_emplaceBack_of_mem le_rfl

theorem Owed.runSoon {e' : E} (ho : Owed s e k id base) (hs : s.runSoon loop e' = .ok t) :
    Owed t e k id base := by
  rcases runSoon_cases hs with ⟨-, rfl⟩ | ⟨-, -, ⟨c, -, -, rfl⟩ | ⟨-, rfl⟩⟩
  · exact ho
  · exact ho.mono [] rfl mem_emplaceBack_of_mem le_rfl
  · exact ho.drain _ _

theorem Owed.capture (ho : Owed s e k id base) (e' : E) : Owed (s.capture e') e k id base := by
  have hne : ListRef.tmp e k ≠ .tmp e' s.nextTmp := by
    intro h
    have hk := ho.1
    cases h
    omega
  refine ho.mono [_] rfl (fun h => ?_) (Nat.le_succ _)
  show _ ∈ Function.update s.lists (.tmp e' s.nextTmp) [] (.tmp e k)
  rwa [Function.update_of_ne hne]

omit [DecidableEq E] in
/-- A call that is not that of the callback ends. -/
theorem Owed.pop {f : Frame E} {below : List (Frame E)} (ho : Owed s e k id base)
    (hst : s.stack = f :: below) (hf : ¬ f.serves (.tmp e k)) (hid : ∀ l, f ≠ .callback id l)
    (htop : t.stack = below) (hl : t.lists = s.lists) (hn : t.nextTmp = s.nextTmp) :
    Owed t e k id base := by
  obtain ⟨hk, above, fr, hs, hfr, hcall⟩ := ho
  rw [hst] at hs
  cases above with
  | nil =>
    cases hs
    exact absurd hfr hf
  | cons g above =>
    obtain ⟨rfl, rfl⟩ := List.cons.inj hs
    refine ⟨by rwa [hn], above, fr, htop, hfr, ?_⟩
    rw [hl]
    refine hcall.imp_right ?_
    rintro ⟨l, h⟩
    rcases List.mem_cons.1 h with h | h
    · exact absurd h.symm (hid l)
    · exact ⟨l, h⟩

/-- The loop of a drain ends: its list is empty. -/
theorem Owed.leave {e' : E} {tasks : ListRef E} {prev : Option E} {first : Bool}
    {below : List (Frame E)} (ho : Owed s e k id base)
    (hst : s.stack = .drain e' tasks prev first :: below) (hempty : s.lists tasks = []) :
    Owed (s.leave e' prev first below) e k id base := by
  obtain ⟨hk, above, fr, hs, hfr, hcall⟩ := ho
  rw [hst] at hs
  cases above with
  | nil =>
    -- The callback would still have to be in the list.
    obtain ⟨rfl, -⟩ := List.cons.inj hs
    have hl : ListRef.tmp e k = tasks := hfr
    rw [hl, hempty] at hcall
    simp at hcall
  | cons g above =>
    obtain ⟨rfl, rfl⟩ := List.cons.inj hs
    refine ⟨hk, above, fr, rfl, hfr, hcall.imp_right ?_⟩
    rintro ⟨l, h⟩
    rcases List.mem_cons.1 h with h | h
    · cases h
    · exact ⟨l, h⟩

theorem Owed.popFront {tasks : ListRef E} {x : Task E} {rest : List (Task E)}
    (ho : Owed s e k id base) (hx : s.lists tasks = x :: rest) (hid : .callback id ≠ x) :
    Owed (s.popFront tasks rest) e k id base :=
  ho.mono [] rfl (fun h => mem_lists_popFront hx h hid) le_rfl

/-- The loop in control executes an iteration: the callback may be the one that it starts. -/
theorem Owed.tick (ho : Owed s e k id base) (hs : s.tick = .ok t) : Owed t e k id base := by
  obtain ⟨e', tasks, prev, first, below, hst, h⟩ := tick_cases hs
  rcases h with ⟨hempty, rfl⟩ | ⟨id', rest, hx, rfl⟩ | ⟨e'', rest, hx, rfl⟩
  · exact ho.leave hst hempty
  · by_cases hid : id = id'
    · subst hid
      obtain ⟨hk, above, fr, hs, hfr, -⟩ := ho
      refine ⟨hk, .callback id tasks :: above, fr, ?_, hfr, .inr ⟨tasks, List.mem_cons_self⟩⟩
      show Frame.callback id tasks :: s.stack = _
      rw [hs, List.cons_append]
    · have hu : Owed (s.popFront tasks rest) e k id base := ho.popFront hx (by simpa using hid)
      exact hu.mono [_] rfl (fun h => h) le_rfl
  · exact (ho.popFront hx (by simp)).runOnce e''

/-- A callback or the function that was passed to a `capture()` returns. -/
theorem Owed.ret (ho : Owed s e k id base) (hs : s.ret = .ok t)
    (hid : ∀ l below, s.stack ≠ .callback id l :: below) : Owed t e k id base := by
  rcases ret_cases hs with ⟨id', tasks, below, hst, rfl⟩ | ⟨e', k', oldReady, below, hst, rfl⟩
  · refine ho.pop hst (by simp [Frame.serves]) (fun l h => ?_) rfl rfl rfl
    rw [h] at hst
    exact hid l below hst
  · obtain ⟨hk, above, fr, hs, hfr, hcall⟩ := ho
    rw [hst] at hs
    cases above with
    | nil =>
      -- The list of this `capture()` is drained.
      obtain ⟨rfl, rfl⟩ := List.cons.inj hs
      have hl : ListRef.tmp e k = .tmp e' k' := hfr
      refine ⟨hk, [], .drain e' (.tmp e' k') _ _, rfl, hl, ?_⟩
      exact hcall.imp_right fun ⟨l, h⟩ => absurd h List.not_mem_nil
    | cons g above =>
      obtain ⟨rfl, rfl⟩ := List.cons.inj hs
      refine ⟨hk, .drain e' (.tmp e' k') _ _ :: above, fr, rfl, hfr, hcall.imp_right ?_⟩
      rintro ⟨l, h⟩
      rcases List.mem_cons.1 h with h | h
      · cases h
      · exact ⟨l, List.mem_cons_of_mem _ h⟩

/-- The callback returns in this step. -/
def Returns (s : State E) (a : Action E) (id : ℕ) : Prop :=
  a = .ret ∧ ∃ l below, s.stack = .callback id l :: below

/-- A callback that has been captured is owed until it returns. -/
theorem Owed.step {a : Action E} (ho : Owed s e k id base) (hs : step loop s a = .ok t)
    (hid : ¬ Returns s a id) : Owed t e k id base := by
  cases a with
  | runSoon e' =>
    obtain ⟨-, hs⟩ := step_runSoon_cases hs
    exact (ho.schedule e').runSoon hs
  | drain e' =>
    obtain ⟨-, rfl⟩ := step_drain_cases hs
    exact ho.drain e' _
  | capture e' =>
    obtain ⟨-, rfl⟩ := step_capture_cases hs
    exact ho.capture e'
  | ret => exact ho.ret hs fun l below hst => hid ⟨rfl, l, below, hst⟩
  | tick => exact ho.tick hs

omit [DecidableEq E] in
/-- While a callback is owed, the `capture()` has not returned. -/
theorem Owed.length_lt (ho : Owed s e k id base) : base.length < s.stack.length := by
  obtain ⟨-, above, fr, hs, -⟩ := ho
  rw [hs, List.length_append, List.length_cons]
  omega

/-- A callback that is submitted by the function that is passed to `capture()` is owed. -/
theorem owed_of_capture (hs : step loop (s.capture e) (.runSoon e) = .ok t) :
    Owed t e s.nextTmp s.nextId s.stack := by
  obtain ⟨-, hs⟩ := step_runSoon_cases hs
  refine Owed.runSoon (s := (s.capture e).schedule e) ?_ hs
  have hready : (s.capture e).ready e = .tmp e s.nextTmp := Function.update_self _ _ _
  refine ⟨Nat.lt_succ_self _, [], .capture e s.nextTmp (s.ready e), rfl, rfl, .inl ?_⟩
  show Task.callback s.nextId ∈
    Function.update (s.capture e).lists ((s.capture e).ready e) _ (.tmp e s.nextTmp)
  rw [hready, Function.update_self]
  exact List.mem_append_right _ (List.mem_singleton_self _)

end Corral.Executor
