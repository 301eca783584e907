import Corral.Executor.Model

/-!
# `Executor`: the fields mirror the call stack

`ready_`, `running_` and `current()` are saved and restored by scope guards, so in every reached
state they are functions of the calls in progress.

* `runSoon_cases`, `tick_cases`, `ret_cases`: everything that a step can have done;
* `readyOf`, `runningOf`, `currentOf`: what the call stack says;
* `WellNested`: what each frame has saved;
* `mirror_of_reach`: in every run the fields and the stack agree.
-/

namespace Corral.Executor

open ActionMachine

variable {E L : Type*} [DecidableEq E] [DecidableEq L] {loop : E → L} {s t : State E}

/-! ### What a step can have done -/

theorem runOnce_cases (s : State E) (e : E) :
    (s.running e = true ∧ s.runOnce e = s.unschedule e) ∨
    (s.running e = false ∧ s.runOnce e = (s.unschedule e).drain e (s.ready e)) := by
  unfold State.runOnce
  split_ifs with h
  · exact Or.inl ⟨h, rfl⟩
  · exact Or.inr ⟨by simpa using h, rfl⟩

/-- Taking a task out leaves the empty lists empty. -/
theorem lists_popFront_eq_nil {l l' : ListRef E} {x : Task E} {rest : List (Task E)}
    (hx : s.lists l = x :: rest) (h : s.lists l' = []) : (s.popFront l rest).lists l' = [] := by
  have hne : l' ≠ l := by
    rintro rfl
    rw [h] at hx
    cases hx
  exact (Function.update_of_ne hne _ _).trans h

/-- Taking a task out leaves the other tasks where they are. -/
theorem mem_lists_popFront {l l' : ListRef E} {x y : Task E} {rest : List (Task E)}
    (hx : s.lists l = x :: rest) (hy : y ∈ s.lists l') (hne : y ≠ x) :
    y ∈ (s.popFront l rest).lists l' := by
  simp only [State.popFront, Function.update_apply]
  split_ifs with hl
  · subst hl
    rw [hx] at hy
    exact (List.mem_cons.1 hy).resolve_left hne
  · exact hy

/-- Where nothing is scheduled there is nothing to clear. -/
theorem runOnce_of_unscheduled {e : E} (h : s.running e = false) (hn : s.scheduled e = none) :
    s.runOnce e = s.drain e (s.ready e) := by
  have hself : s.unschedule e = s := by
    rw [State.unschedule, ← hn, Function.update_eq_self]
  rcases runOnce_cases s e with ⟨hr, -⟩ | ⟨-, he⟩
  · rw [h] at hr; cases hr
  · rw [he, hself]

theorem runSoon_cases {e : E} (hs : s.runSoon loop e = .ok t) :
    ((s.running e = true ∨ s.scheduled e ≠ none) ∧ t = s) ∨
    (s.running e = false ∧ s.scheduled e = none ∧
      ((∃ c, s.current = some c ∧ loop c = loop e ∧ t = s.scheduleOn e c) ∨
      ((∀ c, s.current = some c → loop c ≠ loop e) ∧ t = s.drain e (s.ready e)))) := by
  unfold State.runSoon at hs
  split_ifs at hs with hrun
  · cases hs
    exact Or.inl ⟨hrun.imp_right (fun h => Option.isSome_iff_ne_none.1 h), rfl⟩
  · obtain ⟨hidle, hnone⟩ : s.running e = false ∧ s.scheduled e = none := by
      simpa [not_or] using hrun
    refine Or.inr ⟨hidle, hnone, ?_⟩
    split at hs
    · rename_i hc
      cases hs
      refine Or.inr ⟨fun c h => ?_, runOnce_of_unscheduled hidle hnone⟩
      rw [hc] at h
      cases h
    · rename_i c hc
      by_cases hl : loop c = loop e
      · rw [if_pos hl] at hs
        simp only at hs
        split_ifs at hs
        cases hs
        exact Or.inl ⟨c, hc, hl, rfl⟩
      · rw [if_neg hl] at hs
        cases hs
        refine Or.inr ⟨fun c' h => ?_, runOnce_of_unscheduled hidle hnone⟩
        rw [hc] at h
        cases h
        exact hl

/-- The iteration of a loop that starts the user callback `id`. -/
def State.started (s : State E) (tasks : ListRef E) (rest : List (Task E)) (id : ℕ) : State E :=
  { s.popFront tasks rest with
    stack := .callback id tasks :: s.stack
    executed := Function.update s.executed tasks (s.executed tasks ++ [id]) }

theorem tick_callback {e : E} {tasks : ListRef E} {prev : Option E} {first : Bool}
    {below : List (Frame E)} {id : ℕ} {rest : List (Task E)}
    (hst : s.stack = .drain e tasks prev first :: below)
    (hx : s.lists tasks = .callback id :: rest) : s.tick = .ok (s.started tasks rest id) := by
  simp only [State.tick, hst, hx]
  simp only [State.execute, State.started, hst]

theorem tick_cases (hs : s.tick = .ok t) :
    ∃ e tasks prev first below, s.stack = .drain e tasks prev first :: below ∧
      ((s.lists tasks = [] ∧ t = s.leave e prev first below) ∨
      (∃ id rest, s.lists tasks = .callback id :: rest ∧ t = s.started tasks rest id) ∨
      (∃ e' rest, s.lists tasks = .runOnce e' :: rest ∧
        t = (s.popFront tasks rest).runOnce e')) := by
  unfold State.tick at hs
  split at hs
  · rename_i e tasks prev first below hst
    refine ⟨e, tasks, prev, first, below, hst, ?_⟩
    split at hs
    · cases hs; exact Or.inl ⟨‹_›, rfl⟩
    · rename_i x rest hx
      cases hs
      cases x with
      | callback id => exact Or.inr (Or.inl ⟨id, rest, hx, rfl⟩)
      | runOnce e' => exact Or.inr (Or.inr ⟨e', rest, hx, rfl⟩)
  · cases hs

theorem ret_cases (hs : s.ret = .ok t) :
    (∃ id tasks below, s.stack = .callback id tasks :: below ∧ t = { s with stack := below }) ∨
    (∃ e k oldReady below, s.stack = .capture e k oldReady :: below ∧
      t = { s with ready := Function.update s.ready e oldReady,
                   stack := below }.drain e (.tmp e k)) := by
  unfold State.ret at hs
  split at hs
  · cases hs; exact Or.inl ⟨_, _, _, ‹_›, rfl⟩
  · cases hs; exact Or.inr ⟨_, _, _, _, ‹_›, rfl⟩
  · cases hs

theorem step_runSoon_cases {e : E} (hs : step loop s (.runSoon e) = .ok t) :
    userInControl s.stack = true ∧ (s.schedule e).runSoon loop e = .ok t := by
  simp only [step] at hs
  split_ifs at hs with hu
  exact ⟨hu, hs⟩

theorem step_drain_cases {e : E} (hs : step loop s (.drain e) = .ok t) :
    userInControl s.stack = true ∧ t = s.drain e (s.ready e) := by
  simp only [step] at hs
  split_ifs at hs with hu
  exact ⟨hu, by cases hs; rfl⟩

theorem step_capture_cases {e : E} (hs : step loop s (.capture e) = .ok t) :
    userInControl s.stack = true ∧ t = s.capture e := by
  simp only [step] at hs
  split_ifs at hs with hu
  exact ⟨hu, by cases hs; rfl⟩

/-! ### What the call stack says -/

/-- The list of the innermost `capture()` of `e` in progress, or else its buffer. -/
def readyOf (e : E) : List (Frame E) → ListRef E
  | [] => .buffer e
  | .capture e' k _ :: st => if e' = e then .tmp e k else readyOf e st
  | .drain _ _ _ _ :: st => readyOf e st
  | .callback _ _ :: st => readyOf e st

/-- A `drain()` of `e` is in progress. -/
def runningOf (e : E) : List (Frame E) → Bool
  | [] => false
  | .drain e' _ _ _ :: st => e' = e || runningOf e st
  | .capture _ _ _ :: st => runningOf e st
  | .callback _ _ :: st => runningOf e st

/-- The executor of the innermost `drain()` in progress. -/
def currentOf : List (Frame E) → Option E
  | [] => none
  | .drain e _ _ _ :: _ => some e
  | .capture _ _ _ :: st => currentOf st
  | .callback _ _ :: st => currentOf st

/-- What the frames have saved is what they found, and callbacks run inside the drain of the
list they come from. -/
def WellNested : List (Frame E) → Prop
  | [] => True
  | .drain e tasks prev first :: st =>
    tasks.owner = e ∧ prev = currentOf st ∧ first = !runningOf e st ∧ WellNested st
  | .capture e _ oldReady :: st =>
    oldReady = readyOf e st ∧ userInControl st = true ∧ WellNested st
  | .callback _ tasks :: st =>
    (∃ prev first below, st = .drain tasks.owner tasks prev first :: below) ∧ WellNested st

theorem owner_readyOf (e : E) (st : List (Frame E)) : (readyOf e st).owner = e := by
  induction st with
  | nil => rfl
  | cons f st ih =>
    cases f with
    | capture e' k old =>
      simp only [readyOf]
      split_ifs
      · rfl
      · exact ih
    | drain e' l prev first => exact ih
    | callback id l => exact ih

theorem runningOf_iff {e : E} {st : List (Frame E)} :
    runningOf e st = true ↔ ∃ tasks prev first, Frame.drain e tasks prev first ∈ st := by
  induction st with
  | nil => simp [runningOf]
  | cons f st ih =>
    cases f with
    | capture e' k old => simpa [runningOf] using ih
    | callback id l => simpa [runningOf] using ih
    | drain e' l prev first =>
      simp only [runningOf, Bool.or_eq_true, decide_eq_true_eq, ih, List.mem_cons,
        Frame.drain.injEq]
      constructor
      · rintro (rfl | ⟨l', p, b, h⟩)
        · exact ⟨l, prev, first, Or.inl ⟨rfl, rfl, rfl, rfl⟩⟩
        · exact ⟨l', p, b, Or.inr h⟩
      · rintro ⟨l', p, b, ⟨rfl, -⟩ | h⟩
        · exact Or.inl rfl
        · exact Or.inr ⟨l', p, b, h⟩

/-- The current executor is running. -/
theorem runningOf_currentOf {c : E} {st : List (Frame E)} (h : currentOf st = some c) :
    runningOf c st = true := by
  induction st with
  | nil => cases h
  | cons f st ih =>
    cases f with
    | drain e l prev first =>
      cases h
      simp [runningOf]
    | capture e k old => exact ih h
    | callback id l => exact ih h

/-! ### The invariant -/

/-- The fields of the executors mirror the call stack. -/
structure Mirror (s : State E) : Prop where
  nested : WellNested s.stack
  ready : ∀ e, s.ready e = readyOf e s.stack
  running : ∀ e, s.running e = runningOf e s.stack
  current : s.current = currentOf s.stack

theorem mirror_init : Mirror (State.init : State E) :=
  ⟨trivial, fun _ => rfl, fun _ => rfl, rfl⟩

/-- The fields that matter. -/
theorem Mirror.congr (hm : Mirror s) (hst : t.stack = s.stack) (hr : t.ready = s.ready)
    (hrun : t.running = s.running) (hc : t.current = s.current) : Mirror t := by
  obtain ⟨h₁, h₂, h₃, h₄⟩ := hm
  refine ⟨?_, ?_, ?_, ?_⟩
  · rwa [hst]
  · rwa [hst, hr]
  · rwa [hst, hrun]
  · rwa [hst, hc]

/-- Entering a drain of one of the lists of `e`. -/
theorem Mirror.drain (hm : Mirror s) {e : E} {tasks : ListRef E} (ho : tasks.owner = e) :
    Mirror (s.drain e tasks) := by
  refine ⟨⟨ho, hm.current, ?_, hm.nested⟩, hm.ready, fun e' => ?_, rfl⟩
  · rw [hm.running e]
  · simp only [State.drain, runningOf, Function.update_apply, hm.running]
    by_cases h : e' = e
    · simp [h]
    · have h' : e ≠ e' := fun he => h he.symm
      simp [h, h']

theorem Mirror.runOnce (hm : Mirror s) (e : E) : Mirror (s.runOnce e) := by
  have hm' : Mirror (s.unschedule e) := hm.congr rfl rfl rfl rfl
  rcases runOnce_cases s e with ⟨-, he⟩ | ⟨-, he⟩
  · rw [he]
    exact hm'
  · rw [he]
    exact hm'.drain (by rw [hm.ready e, owner_readyOf])

theorem Mirror.runSoon (hm : Mirror s) {e : E} (hs : s.runSoon loop e = .ok t) : Mirror t := by
  rcases runSoon_cases hs with ⟨-, rfl⟩ | ⟨-, -, ⟨c, -, -, rfl⟩ | ⟨-, rfl⟩⟩
  · exact hm
  · exact hm.congr rfl rfl rfl rfl
  · exact hm.drain (by rw [hm.ready e, owner_readyOf])

theorem Mirror.capture (hm : Mirror s) (hu : userInControl s.stack = true) (e : E) :
    Mirror (s.capture e) := by
  refine ⟨⟨hm.ready e, hu, hm.nested⟩, fun e' => ?_, hm.running, hm.current⟩
  simp only [State.capture, readyOf, Function.update_apply, hm.ready]
  by_cases h : e' = e
  · simp [h]
  · have h' : e ≠ e' := fun he => h he.symm
    simp [h, h']

theorem Mirror.leave (hm : Mirror s) {e : E} {tasks : ListRef E} {prev : Option E} {first : Bool}
    {below : List (Frame E)} (hst : s.stack = .drain e tasks prev first :: below) :
    Mirror (s.leave e prev first below) := by
  obtain ⟨hn, hready, hrun, -⟩ := hm
  rw [hst] at hn
  obtain ⟨-, hprev, hfirst, hbelow⟩ := hn
  refine ⟨hbelow, fun e' => ?_, fun e' => ?_, hprev⟩
  · have := hready e'
    rwa [hst] at this
  · have he' := hrun e'
    rw [hst, runningOf] at he'
    simp only [State.leave]
    by_cases h : e' = e
    · subst h
      cases hf : first with
      | true =>
        rw [hf] at hfirst
        simpa using hfirst.symm
      | false =>
        rw [hf] at hfirst
        simpa [he'] using hfirst
    · have h' : e ≠ e' := fun he => h he.symm
      cases first <;> simp [h, h', he']

theorem Mirror.tick (hm : Mirror s) (hs : s.tick = .ok t) : Mirror t := by
  obtain ⟨e, tasks, prev, first, below, hst, ht⟩ := tick_cases hs
  have hm' : ∀ rest, Mirror (s.popFront tasks rest) := fun rest => hm.congr rfl rfl rfl rfl
  rcases ht with ⟨-, rfl⟩ | ⟨id, rest, -, rfl⟩ | ⟨e', rest, -, rfl⟩
  · exact hm.leave hst
  · have ho : tasks.owner = e := by
      have hn := hm.nested
      rw [hst] at hn
      exact hn.1
    exact ⟨⟨⟨prev, first, below, by rw [hst, ho]⟩, hm.nested⟩, hm.ready, hm.running, hm.current⟩
  · exact (hm' rest).runOnce e'

theorem Mirror.ret (hm : Mirror s) (hs : s.ret = .ok t) : Mirror t := by
  rcases ret_cases hs with ⟨id, tasks, below, hst, rfl⟩ | ⟨e, k, old, below, hst, rfl⟩
  · obtain ⟨hn, hready, hrun, hcur⟩ := hm
    rw [hst] at hn hready hrun hcur
    exact ⟨hn.2, hready, hrun, hcur⟩
  · refine Mirror.drain ?_ rfl
    obtain ⟨hn, hready, hrun, hcur⟩ := hm
    rw [hst] at hn hready hrun hcur
    refine ⟨hn.2.2, fun e' => ?_, hrun, hcur⟩
    have he' := hready e'
    simp only [readyOf] at he'
    by_cases h : e' = e
    · subst h
      simp [hn.1]
    · have h' : e ≠ e' := fun he => h he.symm
      simpa [h, h'] using he'

/-- The step lemma. -/
theorem Mirror.step (hm : Mirror s) {a : Action E} (hs : step loop s a = .ok t) : Mirror t := by
  cases a with
  | runSoon e =>
    have hm' : Mirror (s.schedule e) := hm.congr rfl rfl rfl rfl
    exact hm'.runSoon (step_runSoon_cases hs).2
  | drain e =>
    obtain ⟨-, rfl⟩ := step_drain_cases hs
    exact hm.drain (by rw [hm.ready e, owner_readyOf])
  | capture e =>
    obtain ⟨hu, rfl⟩ := step_capture_cases hs
    exact hm.capture hu e
  | ret => exact hm.ret hs
  | tick => exact hm.tick hs

/-- The run lemma. -/
theorem mirror_of_reach {ok : State E → Action E → Prop} (hr : Reach (step loop) ok .init s) :
    Mirror s :=
  hr.invariant mirror_init fun _ _ _ hm _ hs => hm.step hs

end Corral.Executor
