import Corral.Executor.Order

/-!
# `Executor`: nothing is stranded

A `runSoon()` on an executor that is running or scheduled relies on somebody else to look at the
list.  `runOnce()` clears `scheduled_`; when it is executed by a nested `drain()` while its
executor is inside a `capture()`, it works on the captured list, or not at all, and what is queued
outside of that list has lost its promise.

* `stage e st`: how far the calls in progress will bring `e` without help from others;
* `Steady`: the lists that those calls do not look at are empty;
* `Harmless`: a queued `runOnce()` is executed only when that is so, up to the list that it
  drains itself;
* `Sound`: the invariant of the runs with this condition; `scheduled_` has a rank, because an
  executor that others wait for is running or scheduled itself;
* `nothing_stranded`: order of execution, captures, and quiescence.
-/

namespace Corral.Executor

open ActionMachine

variable {E L : Type*} [DecidableEq E] {loop : E → L} {s t : State E}

/-- How far the calls in progress will bring an executor.

* `idle ls`: no drain is in progress; `ready_` points to the first of `ls` and, as captures end,
  will point to the next ones, down to the buffer;
* `draining outer`: the outermost drain works on the list that `ready_` pointed to when it was
  entered, and `outer` are the lists outside of it;
* `closing`: the outermost drain is the one at the end of a `capture()`. -/
inductive Stage (E : Type*)
  | idle (ls : List (ListRef E))
  | draining (outer : List (ListRef E))
  | closing

/-- The stage when a drain of the list of `ready_` is entered. -/
def Stage.enter : Stage E → Stage E
  | .idle ls => .draining ls.tail
  | .draining outer => .draining outer
  | .closing => .closing

def stage (e : E) : List (Frame E) → Stage E
  | [] => .idle [.buffer e]
  | .callback _ _ :: st => stage e st
  | .capture e' k _ :: st =>
    if e' = e then
      match stage e st with
      | .idle ls => .idle (.tmp e k :: ls)
      | .draining outer => .draining outer
      | .closing => .closing
    else stage e st
  | .drain e' l _ _ :: st =>
    if e' = e then
      match stage e st with
      | .idle ls => if l = readyOf e st then .draining ls.tail else .closing
      | .draining outer => .draining outer
      | .closing => .closing
    else stage e st

/-- The lists that the calls in progress will not look at are empty. -/
def Steady (lists : ListRef E → List (Task E)) : Stage E → Prop
  | .idle ls => ∀ l ∈ ls, lists l = []
  | .draining outer => ∀ l ∈ outer, lists l = []
  | .closing => False

/-- When a drain executes a queued `runOnce()` of `e'`, nothing of `e'` is queued outside of the
list that the outermost drain of `e'` works on, be that drain in progress or entered now; and
`e'` is not at the end of a `capture()`. -/
def Harmless (s : State E) : Action E → Prop
  | .tick => match s.stack with
    | .drain _ l _ _ :: _ => match s.lists l with
      | .runOnce e' :: _ => Steady s.lists (stage e' s.stack).enter
      | _ => True
    | _ => True
  | _ => True

/-! ### Stages -/

theorem stage_of_idle {e : E} {st : List (Frame E)} (h : runningOf e st = false) :
    stage e st = .idle (captured e st) := by
  induction st with
  | nil => rfl
  | cons f st ih =>
    cases f with
    | callback id l => exact ih h
    | capture e' k old =>
      have hst := ih h
      simp only [stage, captured]
      split_ifs with he
      · rw [hst]
      · exact hst
    | drain e' l p b =>
      simp only [runningOf, Bool.or_eq_false_iff, decide_eq_false_iff_not] at h
      rw [stage, if_neg h.1]
      exact ih h.2

/-- The lists of a draining executor that nobody looks at are the outermost of its lists, and
`ready_` does not point to one of them. -/
theorem stage_of_running {e : E} {st : List (Frame E)} (h : runningOf e st = true) :
    (∃ pre outer, pre ≠ [] ∧ captured e st = pre ++ outer ∧ stage e st = .draining outer) ∨
    stage e st = .closing := by
  induction st with
  | nil => cases h
  | cons f st ih =>
    cases f with
    | callback id l => exact ih h
    | capture e' k old =>
      by_cases he : e' = e
      · subst he
        rcases ih h with ⟨pre, outer, hne, hcap, hst⟩ | hst
        · refine Or.inl ⟨.tmp e' k :: pre, outer, List.cons_ne_nil _ _, ?_, ?_⟩
          · simp [captured, hcap]
          · simp [stage, hst]
        · exact Or.inr (by simp [stage, hst])
      · simpa [stage, captured, he] using ih h
    | drain e' l p b =>
      by_cases he : e' = e
      · subst he
        cases hr : runningOf e' st with
        | true =>
          rcases ih hr with ⟨pre, outer, hne, hcap, hst⟩ | hst
          · exact Or.inl ⟨pre, outer, hne, hcap, by simp [stage, hst]⟩
          · exact Or.inr (by simp [stage, hst])
        | false =>
          obtain ⟨rest, hcap⟩ := head_captured e' st
          simp only [stage, stage_of_idle hr, captured, if_true]
          split_ifs
          · refine Or.inl ⟨[readyOf e' st], rest, List.cons_ne_nil _ _, ?_, ?_⟩
            · rw [hcap]; rfl
            · rw [hcap]; rfl
          · exact Or.inr rfl
      · have hr : runningOf e st = true := by simpa [runningOf, he] using h
        simpa [stage, captured, he] using ih hr

/-- Entering a drain of the list that `ready_` points to. -/
theorem stage_drain_ready (e : E) (st : List (Frame E)) (p : Option E) (b : Bool) :
    stage e (.drain e (readyOf e st) p b :: st) = (stage e st).enter := by
  cases hr : runningOf e st with
  | false =>
    obtain ⟨rest, hcap⟩ := head_captured e st
    simp [stage, stage_of_idle hr, hcap, Stage.enter]
  | true =>
    rcases stage_of_running hr with ⟨pre, outer, -, -, hst⟩ | hst
    · simp [stage, hst, Stage.enter]
    · simp [stage, hst, Stage.enter]

theorem stage_drain_ne {e e' : E} (h : e' ≠ e) (st : List (Frame E)) (l : ListRef E)
    (p : Option E) (b : Bool) : stage e (.drain e' l p b :: st) = stage e st := by
  rw [stage, if_neg h]

/-! ### Steadiness -/

omit [DecidableEq E] in
theorem Steady.mono {lists lists' : ListRef E → List (Task E)} {g : Stage E}
    (h : Steady lists g) (hl : ∀ l, lists l = [] → lists' l = []) : Steady lists' g := by
  cases g with
  | idle ls => exact fun l hm => hl l (h l hm)
  | draining outer => exact fun l hm => hl l (h l hm)
  | closing => exact h

omit [DecidableEq E] in
theorem Steady.enter {lists : ListRef E → List (Task E)} {g : Stage E} (h : Steady lists g) :
    Steady lists g.enter := by
  cases g with
  | idle ls => exact fun l hm => h l (List.mem_of_mem_tail hm)
  | draining outer => exact h
  | closing => exact h

/-- Submitting to an executor of another stage, or to one that is running. -/
theorem Steady.emplaceBack (ht : Tracked s) {e e' : E} {x : Task E}
    (h : Steady s.lists (stage e' s.stack)) (hr : e' = e → runningOf e s.stack = true) :
    Steady (s.emplaceBack (readyOf e s.stack) x).lists (stage e' s.stack) := by
  have hne : ∀ l, l ≠ readyOf e s.stack →
      (s.emplaceBack (readyOf e s.stack) x).lists l = s.lists l :=
    fun l hl => Function.update_of_ne hl _ _
  have howner : (readyOf e s.stack).owner = e := owner_readyOf e s.stack
  cases hrun : runningOf e' s.stack with
  | false =>
    have hee : e' ≠ e := by
      rintro rfl
      rw [hr rfl] at hrun
      cases hrun
    rw [stage_of_idle hrun] at h ⊢
    intro l hl
    rw [hne l fun he => ?_]
    · exact h l hl
    · subst he
      exact hee ((owner_of_mem_captured hl).symm.trans howner)
  | true =>
    rcases stage_of_running hrun with ⟨pre, outer, hpre, hcap, hst⟩ | hst
    · rw [hst] at h ⊢
      intro l hl
      rw [hne l fun he => ?_]
      · exact h l hl
      · -- `ready_` points to the first list, which is not one of the outer ones
        subst he
        have hmem : readyOf e s.stack ∈ captured e' s.stack := by
          rw [hcap]
          exact List.mem_append_right _ hl
        have hee : e' = e := (owner_of_mem_captured hmem).symm.trans howner
        subst hee
        obtain ⟨rest, hhead⟩ := head_captured e' s.stack
        obtain ⟨y, ys, rfl⟩ := List.exists_cons_of_ne_nil hpre
        have hnd := ht.nodup e'
        have hy : y = readyOf e' s.stack := by
          rw [hhead] at hcap
          exact (List.cons.inj hcap).1.symm
        rw [hcap, List.cons_append, List.nodup_cons, hy] at hnd
        exact hnd.1 (List.mem_append_right _ hl)
    · rw [hst] at h
      exact h.elim

/-- Submitting to an executor and entering a drain of its list. -/
theorem Steady.emplaceBack_enter (ht : Tracked s) {e : E} {x : Task E}
    (h : Steady s.lists (stage e s.stack)) :
    Steady (s.emplaceBack (readyOf e s.stack) x).lists (stage e s.stack).enter := by
  cases hrun : runningOf e s.stack with
  | true => exact (h.emplaceBack ht fun _ => hrun).enter
  | false =>
    obtain ⟨rest, hhead⟩ := head_captured e s.stack
    have hnd := ht.nodup e
    rw [stage_of_idle hrun, hhead] at h ⊢
    rw [hhead, List.nodup_cons] at hnd
    intro l hl
    have hl' : l ∈ rest := hl
    have hne : l ≠ readyOf e s.stack := fun he => hnd.1 (he ▸ hl')
    exact (Function.update_of_ne hne _ _).trans (h l (List.mem_cons_of_mem _ hl'))

/-! ### The invariant -/

/-- Nothing of `e` is left behind: the calls in progress will look at all that is queued, or a
`capture()` ends now with nothing to do. -/
def Secure (s : State E) (e : E) : Prop :=
  Steady s.lists (stage e s.stack) ∨
  ∃ l p b below, s.stack = .drain e l p b :: below ∧ s.lists l = [] ∧
    Steady s.lists (stage e below)

/-- The invariant of the runs without harmful steps. -/
structure Sound (s : State E) : Prop where
  queued : ∀ e c, s.scheduled e = some c → ∃ l, l.owner = c ∧ .runOnce e ∈ s.lists l
  secure : ∀ e, s.scheduled e = none → Secure s e
  ranked : ∃ rank : E → ℕ, ∀ e c, s.scheduled e = some c → s.scheduled c ≠ none →
    rank c < rank e

/-- Unless a drain with nothing to do is in control. -/
theorem Secure.steady {e : E} (h : Secure s e)
    (htop : ∀ e' l p b below, s.stack = .drain e' l p b :: below → s.lists l ≠ []) :
    Steady s.lists (stage e s.stack) := by
  rcases h with h | ⟨l, p, b, below, hst, hnil, -⟩
  · exact h
  · exact absurd hnil (htop e l p b below hst)

theorem steady_of_userInControl {e : E} (h : Secure s e) (hu : userInControl s.stack = true) :
    Steady s.lists (stage e s.stack) := by
  refine h.steady fun e' l p b below hst => ?_
  rw [hst] at hu
  cases hu

/-- An executor that is neither running nor scheduled has nothing queued. -/
theorem Secure.lists_eq_nil (ht : Tracked s) {e : E} (h : Secure s e)
    (hr : runningOf e s.stack = false) {l : ListRef E} (hl : l.owner = e) : s.lists l = [] := by
  have hsteady : Steady s.lists (stage e s.stack) := by
    rcases h with h | ⟨l, p, b, below, hst, -, -⟩
    · exact h
    · rw [hst] at hr
      simp [runningOf] at hr
  rw [stage_of_idle hr] at hsteady
  cases l with
  | buffer e' =>
    have he : e' = e := hl
    subst he
    exact hsteady _ (buffer_mem_captured _ _)
  | tmp e' k =>
    have he : e' = e := hl
    subst he
    by_contra hne
    rcases ht.inUse e' k hne with h | ⟨p, b, h⟩
    · exact hne (hsteady _ h)
    · rw [runningOf_iff.2 ⟨_, _, _, h⟩] at hr
      cases hr

theorem sound_init : Sound (State.init : State E) := by
  refine ⟨fun e c h => ?_, fun e _ => Or.inl fun l _ => rfl, fun _ => 0, fun e c h => ?_⟩
  · cases h
  · cases h

/-! ### The step lemma -/

/-- Where the loop of a drain ends, what was secure is steady. -/
theorem Secure.leave {e e₀ : E} {l : ListRef E} {p : Option E} {b : Bool}
    {below : List (Frame E)} (h : Secure s e) (hst : s.stack = .drain e₀ l p b :: below)
    (hnil : s.lists l = []) : Steady s.lists (stage e below) := by
  rcases h with h | ⟨l', p', b', below', hst', -, h⟩
  · rw [hst] at h
    by_cases he : e₀ = e
    · subst he
      cases hr : runningOf e₀ below with
      | true =>
        rcases stage_of_running hr with ⟨pre, outer, -, -, hg⟩ | hg
        · simpa [stage, hg] using h
        · simp [stage, hg, Steady] at h
      | false =>
        obtain ⟨rest, hhead⟩ := head_captured e₀ below
        rw [stage_of_idle hr, hhead]
        simp only [stage, stage_of_idle hr, hhead, if_true] at h
        by_cases hl : l = readyOf e₀ below
        · rw [if_pos hl] at h
          intro l' hl'
          rcases List.mem_cons.1 hl' with rfl | hl'
          · rwa [← hl]
          · exact h l' hl'
        · rw [if_neg hl] at h
          exact h.elim
    · rwa [stage_drain_ne he] at h
  · rw [hst] at hst'
    cases hst'
    exact h

theorem Sound.leave (hi : Sound s) {e : E} {l : ListRef E} {p : Option E} {b : Bool}
    {below : List (Frame E)} (hst : s.stack = .drain e l p b :: below) (hnil : s.lists l = []) :
    Sound (s.leave e p b below) :=
  ⟨hi.queued, fun e' h => Or.inl ((hi.secure e' h).leave hst hnil), hi.ranked⟩

/-- Nothing but the executors of a drain that does not end changes by an iteration. -/
theorem Sound.started (hi : Sound s) {e : E} {l : ListRef E} {p : Option E} {b : Bool}
    {below : List (Frame E)} {id : ℕ} {rest : List (Task E)}
    (hst : s.stack = .drain e l p b :: below) (hx : s.lists l = .callback id :: rest) :
    Sound (s.started l rest id) := by
  refine ⟨fun e' c h => ?_, fun e' h => Or.inl ?_, hi.ranked⟩
  · obtain ⟨l', hl', hm⟩ := hi.queued e' c h
    exact ⟨l', hl', mem_lists_popFront hx hm (by simp)⟩
  · have hsteady := (hi.secure e' h).steady fun e'' l'' p' b' below' hst' => by
      rw [hst] at hst'
      cases hst'
      rw [hx]
      exact List.cons_ne_nil _ _
    exact hsteady.mono fun l' hl' => lists_popFront_eq_nil hx hl'

/-- A queued `runOnce()` is executed where it is harmless. -/
theorem Sound.runOnce (hm : Mirror s) (hi : Sound s) {e e' : E} {l : ListRef E} {p : Option E}
    {b : Bool} {below : List (Frame E)} {rest : List (Task E)}
    (hst : s.stack = .drain e l p b :: below) (hx : s.lists l = .runOnce e' :: rest)
    (hok : Steady s.lists (stage e' s.stack).enter) :
    Sound ((s.popFront l rest).runOnce e') := by
  have hlists : ∀ l', s.lists l' = [] → (s.popFront l rest).lists l' = [] :=
    fun l' hl' => lists_popFront_eq_nil hx hl'
  -- The drain in control has something to do, so whoever is not scheduled is steady.
  have hsteady : ∀ e'', s.scheduled e'' = none →
      Steady (s.popFront l rest).lists (stage e'' s.stack) := by
    intro e'' h
    refine ((hi.secure e'' h).steady fun _ l'' p' b' below' hst' => ?_).mono hlists
    rw [hst] at hst'
    cases hst'
    rw [hx]
    exact List.cons_ne_nil _ _
  -- Only the promise to `e'` is taken out of the list, and `e'` is no longer scheduled.
  have hqueued : ∀ e'' c, Function.update s.scheduled e' none e'' = some c →
      ∃ l', l'.owner = c ∧ .runOnce e'' ∈ (s.popFront l rest).lists l' := by
    intro e'' c h
    have hne : e'' ≠ e' := by
      rintro rfl
      rw [Function.update_self] at h
      cases h
    rw [Function.update_of_ne hne] at h
    obtain ⟨l', hl', hmem⟩ := hi.queued e'' c h
    exact ⟨l', hl', mem_lists_popFront hx hmem fun he => hne (Task.runOnce.inj he)⟩
  have hranked : ∃ rank : E → ℕ, ∀ e'' c, Function.update s.scheduled e' none e'' = some c →
      Function.update s.scheduled e' none c ≠ none → rank c < rank e'' := by
    obtain ⟨rank, hrank⟩ := hi.ranked
    refine ⟨rank, fun e'' c h hc => hrank e'' c ?_ ?_⟩
    · rw [Function.update_apply] at h
      split_ifs at h
      exact h
    · rw [Function.update_apply] at hc
      split_ifs at hc
      · exact absurd rfl hc
      · exact hc
  rcases runOnce_cases (s.popFront l rest) e' with ⟨hr, he⟩ | ⟨hr, he⟩
  · rw [he]
    refine ⟨hqueued, fun e'' h => Or.inl ?_, hranked⟩
    by_cases hee : e'' = e'
    · subst hee
      have hrun : runningOf e'' s.stack = true := (hm.running e'').symm.trans hr
      have henter : (stage e'' s.stack).enter = stage e'' s.stack := by
        rcases stage_of_running hrun with ⟨pre, outer, -, -, hg⟩ | hg <;> rw [hg] <;> rfl
      rw [henter] at hok
      exact hok.mono hlists
    · exact hsteady e'' ((Function.update_of_ne hee _ _).symm.trans h)
  · rw [he]
    refine ⟨hqueued, fun e'' h => Or.inl ?_, hranked⟩
    by_cases hee : e'' = e'
    · subst hee
      show Steady (s.popFront l rest).lists (stage e'' (.drain e'' (s.ready e'') _ _ :: s.stack))
      rw [hm.ready e'', stage_drain_ready]
      exact hok.mono hlists
    · show Steady (s.popFront l rest).lists (stage e'' (.drain e' (s.ready e') _ _ :: s.stack))
      rw [stage_drain_ne fun h => hee h.symm]
      exact hsteady e'' ((Function.update_of_ne hee _ _).symm.trans h)

theorem Sound.tick (hm : Mirror s) (hi : Sound s) (hok : Harmless s .tick)
    (hs : s.tick = .ok t) : Sound t := by
  obtain ⟨e, l, p, b, below, hst, hcase⟩ := tick_cases hs
  rcases hcase with ⟨hnil, rfl⟩ | ⟨id, rest, hx, rfl⟩ | ⟨e', rest, hx, rfl⟩
  · exact hi.leave hst hnil
  · exact hi.started hst hx
  · refine hi.runOnce hm hst hx ?_
    simpa only [Harmless, hst, hx] using hok

theorem Sound.ret (hi : Sound s) (hs : s.ret = .ok t) : Sound t := by
  rcases ret_cases hs with ⟨id, l, below, hst, rfl⟩ | ⟨e, k, old, below, hst, rfl⟩
  · have hu : userInControl s.stack = true := by rw [hst]; rfl
    refine ⟨hi.queued, fun e h => Or.inl ?_, hi.ranked⟩
    have hsteady := steady_of_userInControl (hi.secure e h) hu
    rw [hst] at hsteady
    exact hsteady
  · have hu : userInControl s.stack = true := by rw [hst]; rfl
    refine ⟨hi.queued, fun e' h => ?_, hi.ranked⟩
    have hsteady := steady_of_userInControl (hi.secure e' h) hu
    rw [hst] at hsteady
    by_cases he : e = e'
    · subst he
      cases hr : runningOf e below with
      | true =>
        refine Or.inl ?_
        rcases stage_of_running hr with ⟨pre, outer, -, -, hg⟩ | hg
        · simpa [stage, hg, State.drain] using hsteady
        · simp [stage, hg, Steady] at hsteady
      | false =>
        -- the closing drain of the outermost capture: it has nothing to do
        simp only [stage, stage_of_idle hr, if_true] at hsteady
        refine Or.inr ⟨_, _, _, below, rfl, hsteady _ List.mem_cons_self, ?_⟩
        rw [stage_of_idle hr]
        exact fun l hl => hsteady l (List.mem_cons_of_mem _ hl)
    · refine Or.inl ?_
      show Steady s.lists (stage e' (.drain e _ _ _ :: below))
      rw [stage_drain_ne he]
      simpa [stage, he] using hsteady

theorem Sound.drain (hm : Mirror s) (hi : Sound s) (hu : userInControl s.stack = true) (e : E) :
    Sound (s.drain e (s.ready e)) := by
  refine ⟨hi.queued, fun e' h => Or.inl ?_, hi.ranked⟩
  have hsteady := steady_of_userInControl (hi.secure e' h) hu
  show Steady s.lists (stage e' (.drain e (s.ready e) _ _ :: s.stack))
  by_cases he : e = e'
  · subst he
    rw [hm.ready e, stage_drain_ready]
    exact hsteady.enter
  · rwa [stage_drain_ne he]

theorem Sound.capture (ht : Tracked s) (hi : Sound s) (hu : userInControl s.stack = true)
    (e : E) : Sound (s.capture e) := by
  have hlists := lists_capture ht e
  refine ⟨?_, fun e' h => Or.inl ?_, hi.ranked⟩
  · rw [hlists]
    exact hi.queued
  · have hsteady := steady_of_userInControl (hi.secure e' h) hu
    rw [hlists]
    show Steady s.lists (stage e' (.capture e s.nextTmp (s.ready e) :: s.stack))
    by_cases he : e = e'
    · subst he
      cases hr : runningOf e s.stack with
      | true =>
        rcases stage_of_running hr with ⟨pre, outer, -, -, hg⟩ | hg
        · simpa [stage, hg] using hsteady
        · simp [hg, Steady] at hsteady
      | false =>
        rw [stage_of_idle hr] at hsteady
        simp only [stage, stage_of_idle hr, if_true]
        intro l hl
        rcases List.mem_cons.1 hl with rfl | hl
        · exact ht.fresh e _ le_rfl
        · exact hsteady l hl
    · simpa [stage, he] using hsteady

/-- What is in a list stays there when something is added. -/
theorem mem_lists_emplaceBack {l l' : ListRef E} {x y : Task E} (h : y ∈ s.lists l') :
    y ∈ (s.emplaceBack l x).lists l' := by
  simp only [State.emplaceBack, Function.update_apply]
  split_ifs with hl
  · subst hl
    exact List.mem_append_left _ h
  · exact h

theorem Steady.schedule (hm : Mirror s) (ht : Tracked s) {e e' : E}
    (h : Steady s.lists (stage e' s.stack)) (hr : e' = e → runningOf e s.stack = true) :
    Steady (s.schedule e).lists (stage e' s.stack) := by
  have h' := h.emplaceBack ht (x := .callback s.nextId) hr
  rwa [← hm.ready e] at h'

/-- An executor that is not scheduled is made to wait for the current one. -/
theorem Sound.scheduleOn (hm : Mirror s) (ht : Tracked s) (hi : Sound s)
    (hu : userInControl s.stack = true) {e c : E} (hr : s.running e = false)
    (hnone : s.scheduled e = none) (hc : s.current = some c) :
    Sound ((s.schedule e).scheduleOn e c) := by
  have hrunc : runningOf c s.stack = true :=
    runningOf_currentOf (hm.current.symm.trans hc)
  have hidle : runningOf e s.stack = false := (hm.running e).symm.trans hr
  have hce : c ≠ e := by
    rintro rfl
    rw [hrunc] at hidle
    cases hidle
  refine ⟨fun e' c' h => ?_, fun e' h => Or.inl ?_, ?_⟩
  · have h' : Function.update s.scheduled e (some c) e' = some c' := h
    by_cases he : e' = e
    · subst he
      rw [Function.update_self] at h'
      cases h'
      refine ⟨s.ready c, by rw [hm.ready c, owner_readyOf], ?_⟩
      have hself : ((s.schedule e').scheduleOn e' c).lists (s.ready c) =
          (s.schedule e').lists (s.ready c) ++ [.runOnce e'] := Function.update_self _ _ _
      rw [hself]
      exact List.mem_append_right _ (List.mem_singleton.2 rfl)
    · rw [Function.update_of_ne he] at h'
      obtain ⟨l, hl, hmem⟩ := hi.queued e' c' h'
      exact ⟨l, hl, mem_lists_emplaceBack (s := { s.schedule e with
        scheduled := Function.update s.scheduled e (some c) }) (mem_lists_emplaceBack hmem)⟩
  · have h' : Function.update s.scheduled e (some c) e' = none := h
    have he : e' ≠ e := by
      rintro rfl
      rw [Function.update_self] at h'
      cases h'
    rw [Function.update_of_ne he] at h'
    have hsteady := steady_of_userInControl (hi.secure e' h') hu
    have h₁ := hsteady.schedule hm ht (e := e) fun h => absurd h he
    have h₂ := h₁.emplaceBack (s := s.schedule e) (ht.schedule hm e) (e := c) (x := .runOnce e)
      (fun _ => hrunc)
    have hready : readyOf c (s.schedule e).stack = s.ready c := (hm.ready c).symm
    rw [hready] at h₂
    exact h₂
  · -- nobody waits for `e`, so its rank is free
    obtain ⟨rank, hrank⟩ := hi.ranked
    refine ⟨Function.update rank e (rank c + 1), fun e' c' h hc' => ?_⟩
    have h' : Function.update s.scheduled e (some c) e' = some c' := h
    by_cases he : e' = e
    · subst he
      rw [Function.update_self] at h'
      cases h'
      rw [Function.update_self, Function.update_of_ne hce]
      exact Nat.lt_succ_self _
    · rw [Function.update_of_ne he] at h'
      have hce' : c' ≠ e := by
        rintro rfl
        obtain ⟨l, hl, hmem⟩ := hi.queued e' c' h'
        rw [(hi.secure c' hnone).lists_eq_nil ht hidle hl] at hmem
        cases hmem
      have hc'' : Function.update s.scheduled e (some c) c' ≠ none := hc'
      rw [Function.update_of_ne hce'] at hc''
      rw [Function.update_of_ne he, Function.update_of_ne hce']
      exact hrank e' c' h' hc''

variable [DecidableEq L]

theorem Sound.runSoon (hm : Mirror s) (ht : Tracked s) (hi : Sound s)
    (hu : userInControl s.stack = true) {e : E}
    (hs : (s.schedule e).runSoon loop e = .ok t) : Sound t := by
  have hqueued : ∀ e' c, s.scheduled e' = some c →
      ∃ l, l.owner = c ∧ .runOnce e' ∈ (s.schedule e).lists l := by
    intro e' c h
    obtain ⟨l, hl, hmem⟩ := hi.queued e' c h
    exact ⟨l, hl, mem_lists_emplaceBack hmem⟩
  rcases runSoon_cases hs with ⟨hbusy, rfl⟩ | ⟨hr, hnone, ⟨c, hc, -, rfl⟩ | ⟨-, rfl⟩⟩
  · refine ⟨hqueued, fun e' h => Or.inl ?_, hi.ranked⟩
    have hsteady := steady_of_userInControl (hi.secure e' h) hu
    refine hsteady.schedule hm ht fun he => ?_
    subst he
    rcases hbusy with hb | hb
    · exact (hm.running e').symm.trans hb
    · exact absurd h hb
  · exact hi.scheduleOn hm ht hu hr hnone hc
  · refine ⟨hqueued, fun e' h => Or.inl ?_, hi.ranked⟩
    have hsteady := steady_of_userInControl (hi.secure e' h) hu
    show Steady (s.schedule e).lists (stage e' (.drain e (s.ready e) _ _ :: s.stack))
    by_cases he : e = e'
    · subst he
      have hlists : (s.schedule e).lists =
          (s.emplaceBack (readyOf e s.stack) (.callback s.nextId)).lists := by
        rw [← hm.ready e]
        rfl
      rw [hlists, hm.ready e, stage_drain_ready]
      exact hsteady.emplaceBack_enter ht
    · rw [stage_drain_ne he]
      exact hsteady.schedule hm ht fun h => absurd h.symm he

/-- The step lemma. -/
theorem Sound.step (hm : Mirror s) (ht : Tracked s) (hi : Sound s) {a : Action E}
    (hok : Harmless s a) (hs : step loop s a = .ok t) : Sound t := by
  cases a with
  | runSoon e =>
    obtain ⟨hu, hs⟩ := step_runSoon_cases hs
    exact hi.runSoon hm ht hu hs
  | drain e =>
    obtain ⟨hu, rfl⟩ := step_drain_cases hs
    exact hi.drain hm hu e
  | capture e =>
    obtain ⟨hu, rfl⟩ := step_capture_cases hs
    exact hi.capture ht hu e
  | ret => exact hi.ret hs
  | tick => exact hi.tick hm hok hs

/-- The run lemma. -/
theorem sound_of_reach (hr : Reach (step loop) Harmless .init s) : Sound s := by
  refine hr.invariant_of (J := fun s => Mirror s ∧ Tracked s)
    (fun _ h => ⟨mirror_of_reach h, tracked_of_reach h⟩) sound_init ?_
  exact fun _ _ _ hJ hi hok hs => hi.step hJ.1 hJ.2 hok hs

/-! ### The result -/

omit [DecidableEq L] in
/-- When nothing runs, nothing is scheduled: an executor that another one waits for has something
queued, so it is scheduled itself, and the ranks would descend forever. -/
theorem Sound.scheduled_eq_none (hm : Mirror s) (ht : Tracked s) (hi : Sound s)
    (hidle : ∀ e, s.running e = false) (e : E) : s.scheduled e = none := by
  obtain ⟨rank, hrank⟩ := hi.ranked
  -- Induction on the rank, over all executors.
  induction hn : rank e using Nat.strong_induction_on generalizing e with
  | _ n ih =>
    by_contra hne
    obtain ⟨c, hc⟩ := Option.ne_none_iff_exists'.1 hne
    obtain ⟨l, hl, hmem⟩ := hi.queued e c hc
    have hsched : s.scheduled c ≠ none := by
      intro hnone
      have hr : runningOf c s.stack = false := (hm.running c).symm.trans (hidle c)
      rw [(hi.secure c hnone).lists_eq_nil ht hr hl] at hmem
      cases hmem
    exact hsched (ih (rank c) (hn ▸ hrank e c hc hsched) c rfl)

omit [DecidableEq L] in
theorem drain_mem_of_callback_mem {st : List (Frame E)} (hw : WellNested st) {id : ℕ}
    {l : ListRef E} (h : Frame.callback id l ∈ st) : ∃ p b, Frame.drain l.owner l p b ∈ st := by
  induction st with
  | nil => cases h
  | cons f st ih =>
    rcases List.mem_cons.1 h with rfl | h
    · obtain ⟨⟨p, b, below, rfl⟩, -⟩ := hw
      exact ⟨p, b, List.mem_cons_of_mem _ List.mem_cons_self⟩
    · have hw' : WellNested st := by
        cases f with
        | drain e l p b => exact hw.2.2.2
        | capture e k old => exact hw.2.2
        | callback id l => exact hw.2
      obtain ⟨p, b, hd⟩ := ih hw' h
      exact ⟨p, b, List.mem_cons_of_mem _ hd⟩

/-- In every run in which queued `runOnce()` calls are executed where they are harmless:

* what was submitted to a list is what was executed from it, in this order, followed by what is
  still queued there, and no callback is submitted twice;
* once a `capture()` is over, all that was submitted to its list has been executed;
* when no executor is running, nothing is queued and nothing is scheduled;
* and if the callbacks only return, that is where the run gets to. -/
theorem nothing_stranded (hr : Reach (step loop) Harmless .init s) :
    (∀ l, s.submitted l = s.executed l ++ callbacks (s.lists l) ∧ (s.submitted l).Nodup ∧
      ∀ l' id, id ∈ s.submitted l → id ∈ s.submitted l' → l = l') ∧
    (∀ e k, ¬ InUse s.stack e k → s.executed (.tmp e k) = s.submitted (.tmp e k) ∧
      ∀ id, Frame.callback id (.tmp e k) ∉ s.stack) ∧
    ((∀ e, s.running e = false) →
      (∀ l, s.lists l = [] ∧ s.executed l = s.submitted l) ∧ ∀ e, s.scheduled e = none) ∧
    (∃ as t, (∀ a ∈ as, a = .tick ∨ a = .ret) ∧ exec (step loop) s as = .ok t ∧
      t.stack = []) := by
  have hm : Mirror s := mirror_of_reach hr
  have ht : Tracked s := tracked_of_reach hr
  have hi := sound_of_reach hr
  have hexec : ∀ l, s.lists l = [] → s.executed l = s.submitted l := by
    intro l hl
    have hord := ht.ordered l
    rw [hl] at hord
    simpa [callbacks] using hord.symm
  refine ⟨fun l => ⟨ht.ordered l, ht.once l, ht.apart l⟩, fun e k huse => ⟨hexec _ ?_, ?_⟩,
    fun hidle => ⟨fun l => ?_, hi.scheduled_eq_none hm ht hidle⟩,
    exists_settled (finitary_of_reach hr)⟩
  · by_contra hne
    exact huse (ht.inUse e k hne)
  · intro id hid
    obtain ⟨p, b, hd⟩ := drain_mem_of_callback_mem hm.nested hid
    exact huse (Or.inr ⟨p, b, hd⟩)
  · have hsec := hi.secure l.owner (hi.scheduled_eq_none hm ht hidle l.owner)
    have hrun : runningOf l.owner s.stack = false := (hm.running _).symm.trans (hidle _)
    have hnil := hsec.lists_eq_nil ht hrun rfl
    exact ⟨hnil, hexec l hnil⟩

/-- The callback of one executor submits to another one of the same event loop, which is run when
that callback has returned. -/
theorem nothing_stranded_deferred :
    ∃ s, exec (step fun _ : Bool => ()) .init
        [.runSoon true, .tick, .runSoon false, .ret, .tick, .tick, .ret, .tick, .tick] = .ok s ∧
      s.executed (.buffer false) = [1] ∧ (∀ l, s.lists l = [] ∧ s.executed l = s.submitted l) ∧
      ∀ e, s.scheduled e = none := by
  refine ⟨_, rfl, rfl, ?_⟩
  refine (nothing_stranded (?_ : Reach (step fun _ : Bool => ()) Harmless .init _)).2.2.1
    (by decide)
  exact Reach.head (a := .runSoon true) trivial rfl <| Reach.head (a := .tick) trivial rfl <|
    Reach.head (a := .runSoon false) trivial rfl <| Reach.head (a := .ret) trivial rfl <|
    Reach.head (a := .tick) (fun _ h => by cases h) rfl <| Reach.head (a := .tick) trivial rfl <|
    Reach.head (a := .ret) trivial rfl <| Reach.head (a := .tick) trivial rfl <|
    Reach.head (a := .tick) trivial rfl .refl

/-- A callback of the executor `true` submits to the executor `false`, enters a `capture()` of it
and calls `drain()` of `true` there. -/
def drainInsideCapture : List (Action Bool) :=
  [.runSoon true, .tick, .runSoon false, .capture false, .drain true, .tick, .tick, .tick, .ret,
    .tick, .ret, .tick]

/-- So something can be stranded. -/
theorem not_nothing_stranded :
    ¬ ∀ s : State Bool, Reach (step fun _ => ()) anyAction .init s →
      (∀ e, s.running e = false) → ∀ l, s.lists l = [] := by
  intro h
  have hnil := h _ (reach_of_run (l := drainInsideCapture) rfl) (by decide) (.buffer false)
  revert hnil
  decide

end Corral.Executor
