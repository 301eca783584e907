import Corral.Executor.Stack

/-!
# `Executor`: order of execution

What holds of every run, however drains and captures are nested.

* `captured e st`: the lists that `ready_` of `e` has pointed to and will point to again, the
  innermost first and the buffer last;
* `Tracked`: callbacks are executed in the order in which they were submitted to a list, and the
  list of a `capture()` holds nothing once that call is over;
* `exists_settled`: if the callbacks in progress and those still queued only return, all calls
  come to an end.
-/

namespace Corral.Executor

open ActionMachine

variable {E L : Type*} [DecidableEq E] {loop : E → L} {s t : State E}

/-- The lists of the captures of `e` in progress, the innermost first, and its buffer. -/
def captured (e : E) : List (Frame E) → List (ListRef E)
  | [] => [.buffer e]
  | .capture e' k _ :: st => if e' = e then .tmp e k :: captured e st else captured e st
  | .drain _ _ _ _ :: st => captured e st
  | .callback _ _ :: st => captured e st

theorem head_captured (e : E) (st : List (Frame E)) :
    ∃ rest, captured e st = readyOf e st :: rest := by
  induction st with
  | nil => exact ⟨[], rfl⟩
  | cons f st ih =>
    cases f with
    | capture e' k old =>
      simp only [captured, readyOf]
      split_ifs
      · exact ⟨_, rfl⟩
      · exact ih
    | drain e' l p b => exact ih
    | callback id l => exact ih

theorem readyOf_mem_captured (e : E) (st : List (Frame E)) : readyOf e st ∈ captured e st := by
  obtain ⟨rest, h⟩ := head_captured e st
  rw [h]
  exact List.mem_cons_self

theorem owner_of_mem_captured {e : E} {st : List (Frame E)} {l : ListRef E}
    (h : l ∈ captured e st) : l.owner = e := by
  induction st with
  | nil =>
    rw [captured, List.mem_singleton] at h
    rw [h]
    rfl
  | cons f st ih =>
    cases f with
    | capture e' k old =>
      simp only [captured] at h
      split_ifs at h
      · rcases List.mem_cons.1 h with rfl | h
        · rfl
        · exact ih h
      · exact ih h
    | drain e' l p b => exact ih h
    | callback id l => exact ih h

theorem buffer_mem_captured (e : E) (st : List (Frame E)) : .buffer e ∈ captured e st := by
  induction st with
  | nil => exact List.mem_singleton.2 rfl
  | cons f st ih =>
    cases f with
    | capture e' k old =>
      simp only [captured]
      split_ifs
      · exact List.mem_cons_of_mem _ ih
      · exact ih
    | drain e' l p b => exact ih
    | callback id l => exact ih

/-- The user callbacks among the tasks of a list. -/
def callbacks (tasks : List (Task E)) : List ℕ :=
  tasks.filterMap fun
    | .callback id => some id
    | .runOnce _ => none

/-- The captured list is in use: its `capture()` is in progress, in the function that was passed
or in the drain at the end. -/
def InUse (st : List (Frame E)) (e : E) (k : ℕ) : Prop :=
  .tmp e k ∈ captured e st ∨ ∃ p b, .drain e (.tmp e k) p b ∈ st

/-- What the lists and the logs say about each other. -/
structure Tracked (s : State E) : Prop where
  nodup : ∀ e, (captured e s.stack).Nodup
  lt : ∀ e k, .tmp e k ∈ captured e s.stack → k < s.nextTmp
  fresh : ∀ e k, s.nextTmp ≤ k → s.lists (.tmp e k) = []
  inUse : ∀ e k, s.lists (.tmp e k) ≠ [] → InUse s.stack e k
  ordered : ∀ l, s.submitted l = s.executed l ++ callbacks (s.lists l)
  issued : ∀ l, ∀ id ∈ s.submitted l, id < s.nextId
  once : ∀ l, (s.submitted l).Nodup
  apart : ∀ l l' id, id ∈ s.submitted l → id ∈ s.submitted l' → l = l'

theorem tracked_init : Tracked (State.init : State E) := by
  constructor <;> simp [State.init, captured, callbacks]

/-- A step that leaves the lists and the logs alone. -/
theorem Tracked.congr (ht : Tracked s) (hcap : ∀ e, captured e t.stack = captured e s.stack)
    (huse : ∀ e k, s.lists (.tmp e k) ≠ [] → InUse s.stack e k → InUse t.stack e k)
    (hl : t.lists = s.lists) (hn : t.nextTmp = s.nextTmp) (hi : t.nextId = s.nextId)
    (hsub : t.submitted = s.submitted) (hex : t.executed = s.executed) : Tracked t := by
  refine ⟨fun e => ?_, fun e k => ?_, fun e k => ?_, fun e k hne => ?_, fun l => ?_, fun l => ?_,
    fun l => ?_, fun l l' => ?_⟩
  · rw [hcap]; exact ht.nodup e
  · rw [hcap, hn]; exact ht.lt e k
  · rw [hl, hn]; exact ht.fresh e k
  · rw [hl] at hne; exact huse e k hne (ht.inUse e k hne)
  · rw [hl, hsub, hex]; exact ht.ordered l
  · rw [hsub, hi]; exact ht.issued l
  · rw [hsub]; exact ht.once l
  · rw [hsub]; exact ht.apart l l'

theorem InUse.cons {st : List (Frame E)} {e : E} {k : ℕ} {f : Frame E} (h : InUse st e k)
    (hf : ∀ e, captured e (f :: st) = captured e st) : InUse (f :: st) e k := by
  rcases h with h | ⟨p, b, h⟩
  · exact Or.inl (by rwa [hf])
  · exact Or.inr ⟨p, b, List.mem_cons_of_mem _ h⟩

theorem Tracked.drain (ht : Tracked s) (e : E) (l : ListRef E) : Tracked (s.drain e l) :=
  ht.congr (fun _ => rfl) (fun _ _ _ h => h.cons fun _ => rfl) rfl rfl rfl rfl rfl

theorem Tracked.unschedule (ht : Tracked s) (e : E) : Tracked (s.unschedule e) :=
  ht.congr (fun _ => rfl) (fun _ _ _ h => h) rfl rfl rfl rfl rfl

theorem Tracked.runOnce (ht : Tracked s) (e : E) : Tracked (s.runOnce e) := by
  rcases runOnce_cases s e with ⟨-, he⟩ | ⟨-, he⟩
  · rw [he]
    exact ht.unschedule e
  · rw [he]
    exact (ht.unschedule e).drain e _

/-- What is put into a list in use keeps the books, if it is not a callback. -/
theorem Tracked.emplaceRunOnce (ht : Tracked s) {l : ListRef E} (e : E)
    (hl : ∃ c, l ∈ captured c s.stack) : Tracked (s.emplaceBack l (.runOnce e)) := by
  obtain ⟨c, hc⟩ := hl
  have hlists : ∀ l', l' ≠ l → (s.emplaceBack l (.runOnce e)).lists l' = s.lists l' :=
    fun l' h => Function.update_of_ne h _ _
  refine ⟨ht.nodup, ht.lt, fun e' k hk => ?_, fun e' k hne => ?_, fun l' => ?_, ht.issued,
    ht.once, ht.apart⟩
  · rw [hlists _ fun h => ?_]
    · exact ht.fresh e' k hk
    · subst h
      have he : e' = c := owner_of_mem_captured hc
      subst he
      exact absurd (ht.lt e' k hc) (Nat.not_lt.2 hk)
  · by_cases h : ListRef.tmp e' k = l
    · subst h
      have he : e' = c := owner_of_mem_captured hc
      subst he
      exact Or.inl hc
    · rw [hlists _ h] at hne
      exact ht.inUse e' k hne
  · by_cases h : l' = l
    · subst h
      have hcb : callbacks (s.lists l' ++ [.runOnce e]) = callbacks (s.lists l') := by
        simp [callbacks]
      simpa [State.emplaceBack, hcb] using ht.ordered l'
    · rw [hlists l' h]
      exact ht.ordered l'

theorem Tracked.schedule (ht : Tracked s) (hm : Mirror s) (e : E) : Tracked (s.schedule e) := by
  have hcap : s.ready e ∈ captured e s.stack := by
    rw [hm.ready e]
    exact readyOf_mem_captured e s.stack
  have hlists : ∀ l, l ≠ s.ready e → (s.schedule e).lists l = s.lists l :=
    fun l h => Function.update_of_ne h _ _
  have hsub : ∀ l, l ≠ s.ready e → (s.schedule e).submitted l = s.submitted l :=
    fun l h => Function.update_of_ne h _ _
  have hsub' : (s.schedule e).submitted (s.ready e) = s.submitted (s.ready e) ++ [s.nextId] :=
    Function.update_self _ _ _
  -- Every field is split by whether the list is the one that `ready_` points to.
  refine ⟨ht.nodup, ht.lt, fun e' k hk => ?_, fun e' k hne => ?_, fun l => ?_,
    fun l id hid => ?_, fun l => ?_, fun l l' id hid hid' => ?_⟩
  · rw [hlists _ fun h => ?_]
    · exact ht.fresh e' k hk
    · rw [← h] at hcap
      have he : e' = e := owner_of_mem_captured hcap
      subst he
      exact absurd (ht.lt e' k hcap) (Nat.not_lt.2 hk)
  · by_cases h : ListRef.tmp e' k = s.ready e
    · rw [← h] at hcap
      have he : e' = e := owner_of_mem_captured hcap
      subst he
      exact Or.inl hcap
    · rw [hlists _ h] at hne
      exact ht.inUse e' k hne
  · by_cases h : l = s.ready e
    · subst h
      have hl : (s.schedule e).lists (s.ready e) = s.lists (s.ready e) ++ [.callback s.nextId] :=
        Function.update_self _ _ _
      have hcb : callbacks (s.lists (s.ready e) ++ [.callback s.nextId]) =
          callbacks (s.lists (s.ready e)) ++ [s.nextId] := by simp [callbacks]
      rw [hl, hsub', hcb, ← List.append_assoc, ht.ordered]
      rfl
    · rw [hlists l h, hsub l h]
      exact ht.ordered l
  · show id < s.nextId + 1
    by_cases h : l = s.ready e
    · subst h
      rw [hsub', List.mem_append, List.mem_singleton] at hid
      rcases hid with hid | rfl
      · exact (ht.issued _ id hid).trans (Nat.lt_succ_self _)
      · exact Nat.lt_succ_self _
    · rw [hsub l h] at hid
      exact (ht.issued l id hid).trans (Nat.lt_succ_self _)
  · by_cases h : l = s.ready e
    · subst h
      rw [hsub', List.nodup_append]
      refine ⟨ht.once _, List.nodup_singleton _, fun a ha b hb => ?_⟩
      rw [List.mem_singleton] at hb
      have := ht.issued _ a ha
      omega
    · rw [hsub l h]
      exact ht.once l
  · -- the new identity is in one log only, because it is larger than those in the others
    have hmem : ∀ l, id ∈ (s.schedule e).submitted l →
        id ∈ s.submitted l ∨ (l = s.ready e ∧ id = s.nextId) := by
      intro l hid
      by_cases h : l = s.ready e
      · subst h
        rw [hsub', List.mem_append, List.mem_singleton] at hid
        exact hid.imp_right fun h => ⟨rfl, h⟩
      · rw [hsub l h] at hid
        exact Or.inl hid
    rcases hmem l hid with h | ⟨h, hn⟩ <;> rcases hmem l' hid' with h' | ⟨h', hn'⟩
    · exact ht.apart l l' id h h'
    · have := ht.issued l id h
      omega
    · have := ht.issued l' id h'
      omega
    · rw [h, h']

theorem lists_capture (ht : Tracked s) (e : E) : (s.capture e).lists = s.lists := by
  have hnil := ht.fresh e s.nextTmp le_rfl
  show Function.update s.lists (.tmp e s.nextTmp) [] = s.lists
  rw [← hnil, Function.update_eq_self]

theorem Tracked.capture (ht : Tracked s) (e : E) : Tracked (s.capture e) := by
  have hcap : ∀ e', captured e' (s.capture e).stack =
      if e = e' then .tmp e' s.nextTmp :: captured e' s.stack else captured e' s.stack :=
    fun _ => rfl
  refine ⟨fun e' => ?_, fun e' k h => ?_, fun e' k hk => ?_, fun e' k hne => ?_, fun l => ?_,
    ht.issued, ht.once, ht.apart⟩
  · rw [hcap]
    split_ifs
    · exact List.nodup_cons.2 ⟨fun h => lt_irrefl _ (ht.lt e' _ h), ht.nodup e'⟩
    · exact ht.nodup e'
  · rw [hcap] at h
    show k < s.nextTmp + 1
    split_ifs at h
    · rcases List.mem_cons.1 h with h | h
      · cases h
        exact Nat.lt_succ_self _
      · exact (ht.lt e' k h).trans (Nat.lt_succ_self _)
    · exact (ht.lt e' k h).trans (Nat.lt_succ_self _)
  · rw [lists_capture ht]
    exact ht.fresh e' k ((Nat.le_succ _).trans hk)
  · rw [lists_capture ht] at hne
    rcases ht.inUse e' k hne with h | ⟨p, b, h⟩
    · refine Or.inl ?_
      rw [hcap]
      split_ifs
      · exact List.mem_cons_of_mem _ h
      · exact h
    · exact Or.inr ⟨p, b, List.mem_cons_of_mem _ h⟩
  · rw [lists_capture ht]
    exact ht.ordered l

theorem Tracked.leave (ht : Tracked s) {e : E} {tasks : ListRef E} {prev : Option E}
    {first : Bool} {below : List (Frame E)} (hst : s.stack = .drain e tasks prev first :: below)
    (hnil : s.lists tasks = []) : Tracked (s.leave e prev first below) := by
  refine ht.congr (fun e' => by rw [hst]; rfl) (fun e' k hne h => ?_) rfl rfl rfl rfl rfl
  rw [hst] at h
  rcases h with h | ⟨p, b, hd⟩
  · exact Or.inl h
  rcases List.mem_cons.1 hd with hd | hd
  · cases hd
    exact absurd hnil hne
  · exact Or.inr ⟨p, b, hd⟩

/-- Taking a task out of a list in use. -/
theorem Tracked.popFront (ht : Tracked s) {l : ListRef E} {x : Task E} {rest : List (Task E)}
    (hx : s.lists l = x :: rest) :
    (∀ e k, s.nextTmp ≤ k → (s.popFront l rest).lists (.tmp e k) = []) ∧
    (∀ e k, (s.popFront l rest).lists (.tmp e k) ≠ [] → InUse s.stack e k) ∧
    (∀ l', l' ≠ l → (s.popFront l rest).lists l' = s.lists l') ∧
    (s.popFront l rest).lists l = rest := by
  have hother : ∀ l', l' ≠ l → (s.popFront l rest).lists l' = s.lists l' :=
    fun l' h => Function.update_of_ne h _ _
  refine ⟨fun e k hk => ?_, fun e k hne => ?_, hother, Function.update_self _ _ _⟩
  · rw [hother _ fun h => ?_]
    · exact ht.fresh e k hk
    · subst h
      rw [ht.fresh e k hk] at hx
      cases hx
  · by_cases h : ListRef.tmp e k = l
    · subst h
      exact ht.inUse e k (by rw [hx]; exact List.cons_ne_nil _ _)
    · rw [hother _ h] at hne
      exact ht.inUse e k hne

theorem Tracked.tick (ht : Tracked s) (hs : s.tick = .ok t) : Tracked t := by
  obtain ⟨e, tasks, prev, first, below, hst, hcase⟩ := tick_cases hs
  rcases hcase with ⟨hnil, rfl⟩ | ⟨id, rest, hx, rfl⟩ | ⟨e', rest, hx, rfl⟩
  · exact ht.leave hst hnil
  · obtain ⟨hfresh, huse, hother, hself⟩ := ht.popFront hx
    refine ⟨ht.nodup, ht.lt, hfresh, fun e k hne => (huse e k hne).cons fun _ => rfl,
      fun l => ?_, ht.issued, ht.once, ht.apart⟩
    by_cases h : l = tasks
    · subst h
      have hex : (s.started l rest id).executed l = s.executed l ++ [id] :=
        Function.update_self _ _ _
      have hcb : callbacks (.callback id :: rest : List (Task E)) = id :: callbacks rest := by
        simp [callbacks]
      have hord := ht.ordered l
      rw [hx, hcb] at hord
      rw [hex, show (s.started l rest id).lists l = rest from hself, List.append_assoc]
      exact hord
    · have hex : (s.started tasks rest id).executed l = s.executed l :=
        Function.update_of_ne h _ _
      rw [hex, show (s.started tasks rest id).lists l = s.lists l from hother l h]
      exact ht.ordered l
  · obtain ⟨hfresh, huse, hother, hself⟩ := ht.popFront hx
    have ht' : Tracked (s.popFront tasks rest) := by
      refine ⟨ht.nodup, ht.lt, hfresh, huse, fun l => ?_, ht.issued, ht.once, ht.apart⟩
      by_cases h : l = tasks
      · subst h
        have hcb : callbacks (.runOnce e' :: rest) = callbacks rest := by simp [callbacks]
        have hord := ht.ordered l
        rw [hx, hcb] at hord
        rw [hself]
        exact hord
      · rw [hother l h]
        exact ht.ordered l
    exact ht'.runOnce e'

theorem Tracked.ret (ht : Tracked s) (hs : s.ret = .ok t) : Tracked t := by
  rcases ret_cases hs with ⟨id, tasks, below, hst, rfl⟩ | ⟨e, k, old, below, hst, rfl⟩
  · refine ht.congr (fun e' => by rw [hst]; rfl) (fun e' k _ h => ?_) rfl rfl rfl rfl rfl
    rw [hst] at h
    rcases h with hk | ⟨p, b, hd⟩
    · exact Or.inl hk
    · exact Or.inr ⟨p, b, by simpa using hd⟩
  · have hcap : ∀ e', captured e' s.stack =
        if e = e' then .tmp e' k :: captured e' below else captured e' below :=
      fun e' => by rw [hst]; rfl
    have hsub : ∀ e', (captured e' below).Sublist (captured e' s.stack) := fun e' => by
      rw [hcap]
      split_ifs
      · exact List.sublist_cons_self _ _
      · exact List.Sublist.refl _
    refine ⟨fun e' => (ht.nodup e').sublist (hsub e'),
      fun e' k' h => ht.lt e' k' ((hsub e').subset h), ht.fresh, fun e' k' hne => ?_,
      ht.ordered, ht.issued, ht.once, ht.apart⟩
    rcases ht.inUse e' k' hne with h | ⟨p, b, h⟩
    · rw [hcap] at h
      split_ifs at h with he
      · subst he
        rcases List.mem_cons.1 h with h | h
        · cases h
          exact Or.inr ⟨_, _, List.mem_cons_self⟩
        · exact Or.inl h
      · exact Or.inl h
    · rw [hst] at h
      exact Or.inr ⟨p, b, List.mem_cons_of_mem _ (by simpa using h)⟩

variable [DecidableEq L]

/-- The step lemma. -/
theorem Tracked.step (hm : Mirror s) (ht : Tracked s) {a : Action E}
    (hs : step loop s a = .ok t) : Tracked t := by
  cases a with
  | runSoon e =>
    obtain ⟨-, hs⟩ := step_runSoon_cases hs
    have ht' := ht.schedule hm e
    rcases runSoon_cases hs with ⟨-, rfl⟩ | ⟨-, -, ⟨c, -, -, rfl⟩ | ⟨-, rfl⟩⟩
    · exact ht'
    · have ht'' : Tracked { s.schedule e with
          scheduled := Function.update (s.schedule e).scheduled e (some c) } :=
        ht'.congr (fun _ => rfl) (fun _ _ _ h => h) rfl rfl rfl rfl rfl
      refine ht''.emplaceRunOnce e ⟨c, ?_⟩
      show s.ready c ∈ captured c s.stack
      rw [hm.ready c]
      exact readyOf_mem_captured c s.stack
    · exact ht'.drain e _
  | drain e =>
    obtain ⟨-, rfl⟩ := step_drain_cases hs
    exact ht.drain e _
  | capture e =>
    obtain ⟨-, rfl⟩ := step_capture_cases hs
    exact ht.capture e
  | ret => exact ht.ret hs
  | tick => exact ht.tick hs

/-- The run lemma. -/
theorem tracked_of_reach {ok : State E → Action E → Prop} (hr : Reach (step loop) ok .init s) :
    Tracked s :=
  hr.invariant_of (J := Mirror) (fun _ => mirror_of_reach) tracked_init
    fun _ _ _ hm ht _ hs => ht.step hm hs

/-! ### All calls come to an end -/

/-- Only finitely many lists hold anything. -/
def Finitary (s : State E) : Prop := ∃ F : Finset (ListRef E), ∀ l ∉ F, s.lists l = []

theorem Finitary.update (hf : Finitary s) {l : ListRef E} {xs : List (Task E)}
    (ht : t.lists = Function.update s.lists l xs) : Finitary t := by
  obtain ⟨F, hF⟩ := hf
  refine ⟨insert l F, fun l' hl' => ?_⟩
  rw [Finset.mem_insert, not_or] at hl'
  rw [ht, Function.update_of_ne hl'.1, hF l' hl'.2]

omit [DecidableEq E] [DecidableEq L] in
theorem Finitary.congr (hf : Finitary s) (ht : t.lists = s.lists) : Finitary t := by
  obtain ⟨F, hF⟩ := hf
  exact ⟨F, fun l hl => by rw [ht, hF l hl]⟩

theorem Finitary.runOnce (hf : Finitary s) (e : E) : Finitary (s.runOnce e) := by
  rcases runOnce_cases s e with ⟨-, he⟩ | ⟨-, he⟩
  all_goals
    rw [he]
    exact hf.congr rfl

theorem Finitary.step (hf : Finitary s) {a : Action E} (hs : step loop s a = .ok t) :
    Finitary t := by
  cases a with
  | runSoon e =>
    obtain ⟨-, hs⟩ := step_runSoon_cases hs
    have hf' : Finitary (s.schedule e) := hf.update rfl
    rcases runSoon_cases hs with ⟨-, rfl⟩ | ⟨-, -, ⟨c, -, -, rfl⟩ | ⟨-, rfl⟩⟩
    · exact hf'
    · exact hf'.update rfl
    · exact hf'.congr rfl
  | drain e =>
    obtain ⟨-, rfl⟩ := step_drain_cases hs
    exact hf.congr rfl
  | capture e =>
    obtain ⟨-, rfl⟩ := step_capture_cases hs
    exact hf.update rfl
  | ret =>
    rcases ret_cases hs with ⟨id, tasks, below, -, rfl⟩ | ⟨e, k, old, below, -, rfl⟩
    all_goals exact hf.congr rfl
  | tick =>
    obtain ⟨e, tasks, prev, first, below, -, hcase⟩ := tick_cases hs
    rcases hcase with ⟨-, rfl⟩ | ⟨id, rest, -, rfl⟩ | ⟨e', rest, -, rfl⟩
    · exact hf.congr rfl
    · exact hf.update rfl
    · have hf' : Finitary (s.popFront tasks rest) := hf.update rfl
      exact hf'.runOnce e'

theorem finitary_of_reach {ok : State E → Action E → Prop} (hr : Reach (step loop) ok .init s) :
    Finitary s :=
  hr.invariant ⟨∅, fun _ _ => rfl⟩ fun _ _ _ hf _ hs => hf.step hs

/-- How many steps the calls in progress take at least, by their frames. -/
def frameWeight : Frame E → ℕ
  | .drain _ _ _ _ => 1
  | .callback _ _ => 1
  | .capture _ _ _ => 2

/-- An upper bound for the number of steps that remain if nothing more is submitted. -/
def remaining (F : Finset (ListRef E)) (s : State E) : ℕ :=
  2 * (∑ l ∈ F, (s.lists l).length) + (s.stack.map frameWeight).sum

omit [DecidableEq L] in
/-- Taking a task out of a list lowers the bound by two. -/
theorem sum_popFront {F : Finset (ListRef E)} (hF : ∀ l ∉ F, s.lists l = []) {l : ListRef E}
    {x : Task E} {rest : List (Task E)} (hx : s.lists l = x :: rest) :
    ∑ l' ∈ F, ((s.popFront l rest).lists l').length + 1 = ∑ l' ∈ F, (s.lists l').length := by
  have hl : l ∈ F := by
    by_contra h
    rw [hF l h] at hx
    cases hx
  rw [← Finset.add_sum_erase F _ hl, ← Finset.add_sum_erase F (fun l' => (s.lists l').length) hl]
  have hself : (s.popFront l rest).lists l = rest := Function.update_self _ _ _
  have hrest : ∑ l' ∈ F.erase l, ((s.popFront l rest).lists l').length =
      ∑ l' ∈ F.erase l, (s.lists l').length := by
    refine Finset.sum_congr rfl fun l' hl' => ?_
    have hother : (s.popFront l rest).lists l' = s.lists l' :=
      Function.update_of_ne (Finset.ne_of_mem_erase hl') _ _
    rw [hother]
  rw [hself, hrest, hx, List.length_cons]
  omega

variable (loop) in
/-- While some call is in progress, an iteration or a return is possible and lowers the
bound. -/
theorem exists_step_remaining_lt {F : Finset (ListRef E)} (hF : ∀ l ∉ F, s.lists l = [])
    (hst : s.stack ≠ []) :
    ∃ a t, (a = .tick ∨ a = .ret) ∧ step loop s a = .ok t ∧ (∀ l ∉ F, t.lists l = []) ∧
      remaining F t < remaining F s := by
  rcases hs : s.stack with _ | ⟨f, below⟩
  · exact absurd hs hst
  · cases f with
    | callback id l =>
      refine ⟨.ret, { s with stack := below }, Or.inr rfl, by simp [step, State.ret, hs], hF, ?_⟩
      simp [remaining, hs, frameWeight]
    | capture e k old =>
      let s' : State E := { s with ready := Function.update s.ready e old, stack := below }
      refine ⟨.ret, s'.drain e (.tmp e k), Or.inr rfl, by simp [step, State.ret, hs, s'], hF, ?_⟩
      simp [remaining, hs, frameWeight, State.drain, s']
    | drain e l prev first =>
      rcases hl : s.lists l with _ | ⟨x, rest⟩
      · refine ⟨.tick, s.leave e prev first below, Or.inl rfl, by simp [step, State.tick, hs, hl],
          hF, ?_⟩
        simp [remaining, hs, frameWeight, State.leave]
      · have hsum := sum_popFront hF hl
        have hF' : ∀ l' ∉ F, (s.popFront l rest).lists l' = [] :=
          fun l' hl' => lists_popFront_eq_nil hl (hF l' hl')
        cases x with
        | callback id =>
          refine ⟨.tick, s.started l rest id, Or.inl rfl, tick_callback hs hl, hF', ?_⟩
          have hlists : (s.started l rest id).lists = (s.popFront l rest).lists := rfl
          have hstack : (s.started l rest id).stack = .callback id l :: s.stack := rfl
          simp only [remaining, hlists, hstack, List.map_cons, List.sum_cons, frameWeight]
          omega
        | runOnce e' =>
          refine ⟨.tick, (s.popFront l rest).runOnce e', Or.inl rfl, by
            simp [step, State.tick, hs, hl, State.execute], ?_, ?_⟩
          · rcases runOnce_cases (s.popFront l rest) e' with ⟨-, he⟩ | ⟨-, he⟩
            all_goals
              rw [he]
              exact hF'
          · rcases runOnce_cases (s.popFront l rest) e' with ⟨-, he⟩ | ⟨-, he⟩
            · have hlists : ((s.popFront l rest).unschedule e').lists =
                  (s.popFront l rest).lists := rfl
              have hstack : ((s.popFront l rest).unschedule e').stack = s.stack := rfl
              rw [he]
              simp only [remaining, hlists, hstack]
              omega
            · rw [he]
              simp only [remaining, State.drain, State.unschedule, List.map_cons, List.sum_cons,
                frameWeight]
              have hstack : (s.popFront l rest).stack = s.stack := rfl
              rw [hstack]
              omega

/-- If the callbacks in progress and those still queued return without submitting anything, all
calls come to an end. -/
theorem exists_settled (hf : Finitary s) :
    ∃ as t, (∀ a ∈ as, a = .tick ∨ a = .ret) ∧ exec (step loop) s as = .ok t ∧ t.stack = [] := by
  obtain ⟨F, hF⟩ := hf
  exact exists_run (I := fun s => ∀ l ∉ F, s.lists l = []) hF
    fun s hF hst => exists_step_remaining_lt loop hF hst

end Corral.Executor
