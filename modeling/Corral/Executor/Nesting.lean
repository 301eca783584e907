import Corral.Executor.Stack

/-!
# `Executor`: callbacks of one event loop are not nested

`runSoon()` decides between running at once and deferring by looking at `current()` alone.  When
the current executor belongs to another event loop, an executor of the same event loop may be
running further down the stack, and then the callback is nested into its callback.

* `callbackLoops`: the event loops of the user callbacks in progress, innermost first;
* `Plain`: the runs without `drain()` and `capture()`;
* `Cooperative`: in addition, `runSoon()` runs an executor at once only when no executor of its
  event loop is running;
* `callbacks_not_nested`: in such a run no two callbacks in progress belong to one event loop,
  and the first step that is not cooperative nests two of them.
-/

namespace Corral.Executor

open ActionMachine

variable {E L : Type*} [DecidableEq E] (loop : E → L)

/-- The event loops of the callbacks in progress. -/
def callbackLoops : List (Frame E) → List L
  | [] => []
  | .callback _ tasks :: st => loop tasks.owner :: callbackLoops st
  | .drain _ _ _ _ :: st => callbackLoops st
  | .capture _ _ _ :: st => callbackLoops st

/-- Runs without explicit drains and without captures. -/
def Plain (_ : State E) : Action E → Prop
  | .drain _ => False
  | .capture _ => False
  | _ => True

/-- An executor that `runSoon()` runs at once is the only one of its event loop that runs. -/
def Cooperative (s : State E) : Action E → Prop
  | .runSoon e =>
    s.running e = false → s.scheduled e = none → (∀ c, s.current = some c → loop c ≠ loop e) →
      ∀ e', loop e' = loop e → s.running e' = false
  | .drain _ => False
  | .capture _ => False
  | _ => True

/-- A drain is entered only when no callback of its event loop is in progress, and from another
drain only within one event loop; and nothing is captured. -/
def Apart : List (Frame E) → Prop
  | [] => True
  | .drain e tasks _ _ :: st =>
    tasks = .buffer e ∧ loop e ∉ callbackLoops loop st ∧
      (∀ e₀ l p b below, st = .drain e₀ l p b :: below → loop e₀ = loop e) ∧ Apart st
  | .capture _ _ _ :: _ => False
  | .callback _ _ :: st => Apart st

variable {loop} {s t : State E}

theorem nodup_callbackLoops {st : List (Frame E)} (hw : WellNested st) (ha : Apart loop st) :
    (callbackLoops loop st).Nodup := by
  induction st with
  | nil => exact List.nodup_nil
  | cons f st ih =>
    cases f with
    | drain e l prev first => exact ih hw.2.2.2 ha.2.2.2
    | capture e k old => exact ha.elim
    | callback id l =>
      obtain ⟨⟨prev, first, below, rfl⟩, hw'⟩ := hw
      exact List.nodup_cons.2 ⟨ha.2.1, ih hw' ha⟩

/-- A callback in progress belongs to an executor that is running. -/
theorem running_of_mem_callbackLoops {st : List (Frame E)} (hw : WellNested st) {x : L}
    (hx : x ∈ callbackLoops loop st) : ∃ e, loop e = x ∧ runningOf e st = true := by
  induction st with
  | nil => cases hx
  | cons f st ih =>
    cases f with
    | drain e l prev first =>
      obtain ⟨e', he', hr⟩ := ih hw.2.2.2 hx
      exact ⟨e', he', by simp [runningOf, hr]⟩
    | capture e k old => exact ih hw.2.2 hx
    | callback id l =>
      rcases List.mem_cons.1 hx with rfl | hx
      · obtain ⟨⟨prev, first, below, rfl⟩, -⟩ := hw
        exact ⟨l.owner, rfl, by simp [runningOf]⟩
      · exact ih hw.2 hx

theorem readyOf_of_apart {st : List (Frame E)} (ha : Apart loop st) (e : E) :
    readyOf e st = .buffer e := by
  induction st with
  | nil => rfl
  | cons f st ih =>
    cases f with
    | drain e' l prev first => exact ih ha.2.2.2
    | capture e' k old => exact ha.elim
    | callback id l => exact ih ha

/-- A running executor is in the middle of a callback of its event loop, or a drain of its event
loop is in control. -/
theorem mem_callbackLoops_or {st : List (Frame E)} (hw : WellNested st) (ha : Apart loop st)
    {e : E} (hr : runningOf e st = true) :
    loop e ∈ callbackLoops loop st ∨
    ∃ e₀ l p b below, st = .drain e₀ l p b :: below ∧ loop e₀ = loop e := by
  induction st with
  | nil => cases hr
  | cons f st ih =>
    cases f with
    | capture e' k old => exact ha.elim
    | callback id l =>
      obtain ⟨⟨prev, first, below, rfl⟩, hw'⟩ := hw
      rcases ih hw' ha hr with h | ⟨e₀, l', p, b, below', h, he⟩
      · exact Or.inl (List.mem_cons_of_mem _ h)
      · cases h
        rw [callbackLoops, he]
        exact Or.inl List.mem_cons_self
    | drain e' l p b =>
      obtain ⟨-, -, hadj, ha'⟩ := ha
      simp only [runningOf, Bool.or_eq_true, decide_eq_true_eq] at hr
      rcases hr with rfl | hr
      · exact Or.inr ⟨e', l, p, b, st, rfl, rfl⟩
      · rcases ih hw.2.2.2 ha' hr with h | ⟨e₀, l', p', b', below, rfl, he⟩
        · exact Or.inl h
        · exact Or.inr ⟨e', l, p, b, _, rfl, (hadj _ _ _ _ _ rfl).symm.trans he⟩

/-- The invariant of cooperative runs. -/
structure Unnested (loop : E → L) (s : State E) : Prop where
  apart : Apart loop s.stack
  sameLoop : ∀ l e, Task.runOnce e ∈ s.lists l → loop e = loop l.owner
  slated : ∀ e, s.running e = false → s.scheduled e = none → s.lists (.buffer e) = []

/-! ### The step lemma -/

theorem mem_emplaceBack {l l' : ListRef E} {x y : Task E}
    (h : y ∈ (s.emplaceBack l x).lists l') : y ∈ s.lists l' ∨ (l' = l ∧ y = x) := by
  simp only [State.emplaceBack, Function.update_apply] at h
  split_ifs at h with hl
  · subst hl
    rcases List.mem_append.1 h with h | h
    · exact Or.inl h
    · exact Or.inr ⟨rfl, List.mem_singleton.1 h⟩
  · exact Or.inl h

theorem Unnested.tick (hm : Mirror s) (hn : Unnested loop s) (hs : s.tick = .ok t) :
    Unnested loop t := by
  obtain ⟨e, tasks, prev, first, below, hst, ht⟩ := tick_cases hs
  have ha := hn.apart
  rw [hst] at ha
  obtain ⟨htasks, hfree, -, hbelow⟩ := ha
  subst htasks
  have hrun : s.running e = true := by
    rw [hm.running e, hst]
    simp [runningOf]
  -- what the loop takes out of the list of `e` concerns neither the other executors ...
  have hslated : ∀ rest e', s.running e' = false → s.scheduled e' = none →
      (s.popFront (.buffer e) rest).lists (.buffer e') = [] := by
    intro rest e' hr hsch
    have he : e' ≠ e := by
      rintro rfl
      rw [hrun] at hr
      cases hr
    exact (Function.update_of_ne (fun h => he (ListRef.buffer.inj h)) _ _).trans
      (hn.slated e' hr hsch)
  -- ... nor the tasks that remain
  have hsame : ∀ x rest, s.lists (.buffer e) = x :: rest → ∀ l e',
      Task.runOnce e' ∈ (s.popFront (.buffer e) rest).lists l → loop e' = loop l.owner := by
    intro x rest hx l e' h
    simp only [State.popFront, Function.update_apply] at h
    split_ifs at h with hl
    · subst hl
      exact hn.sameLoop _ e' (by rw [hx]; exact List.mem_cons_of_mem _ h)
    · exact hn.sameLoop l e' h
  rcases ht with ⟨hnil, rfl⟩ | ⟨id, rest, hx, rfl⟩ | ⟨e', rest, hx, rfl⟩
  · refine ⟨hbelow, hn.sameLoop, fun e' hr hsch => ?_⟩
    by_cases he : e' = e
    · subst he
      exact hnil
    · have hr' : s.running e' = false := by
        have he' : e ≠ e' := fun h => he h.symm
        have hleave : false = runningOf e' below := hr.symm.trans ((hm.leave hst).running e')
        rw [hm.running e', hst]
        simpa [runningOf, he'] using hleave.symm
      exact hn.slated e' hr' hsch
  · exact ⟨hn.apart, hsame _ rest hx, hslated rest⟩
  · have hl : loop e' = loop e :=
      hn.sameLoop (.buffer e) e' (by rw [hx]; exact List.mem_cons_self)
    rcases runOnce_cases (s.popFront (.buffer e) rest) e' with ⟨hr, he⟩ | ⟨hr, he⟩
    · rw [he]
      refine ⟨hn.apart, hsame _ rest hx, fun e'' hr' hsch => hslated rest e'' hr' ?_⟩
      have hne : e'' ≠ e' := by
        rintro rfl
        have hr'' : (s.popFront (.buffer e) rest).running e'' = false := hr'
        rw [hr] at hr''
        cases hr''
      exact (Function.update_of_ne hne _ _).symm.trans hsch
    · rw [he]
      have hready : s.ready e' = .buffer e' := by
        rw [hm.ready e', readyOf_of_apart hn.apart]
      refine ⟨⟨hready, ?_, ?_, hn.apart⟩, hsame _ rest hx, fun e'' hr' hsch => ?_⟩
      · show loop e' ∉ callbackLoops loop s.stack
        rw [hst, hl]
        exact hfree
      · intro e₀ l p b st h
        have h' : s.stack = .drain e₀ l p b :: st := h
        rw [hst] at h'
        cases h'
        exact hl.symm
      · have hr'' : Function.update s.running e' true e'' = false := hr'
        have hsch' : Function.update s.scheduled e' none e'' = none := hsch
        by_cases hne : e'' = e'
        · subst hne
          rw [Function.update_self] at hr''
          cases hr''
        · rw [Function.update_of_ne hne] at hr'' hsch'
          exact hslated rest e'' hr'' hsch'

variable [DecidableEq L]

theorem Unnested.runSoon (hm : Mirror s) (hn : Unnested loop s) {e : E}
    (hu : userInControl s.stack = true)
    (hok : Cooperative loop s (.runSoon e)) (hs : (s.schedule e).runSoon loop e = .ok t) :
    Unnested loop t := by
  -- Nothing is captured, so every executor works on its own buffer.
  have hready : ∀ e, s.ready e = .buffer e := fun e => by
    rw [hm.ready e, readyOf_of_apart hn.apart]
  have hsame : ∀ l e', Task.runOnce e' ∈ (s.schedule e).lists l → loop e' = loop l.owner := by
    intro l e' h
    rcases mem_emplaceBack (s := s) (l := s.ready e) h with h | ⟨-, h⟩
    · exact hn.sameLoop l e' h
    · cases h
  have hother : ∀ e', e' ≠ e → (s.schedule e).lists (.buffer e') = s.lists (.buffer e') := by
    intro e' he
    simp only [State.schedule, State.emplaceBack, hready]
    exact Function.update_of_ne (fun h => he (ListRef.buffer.inj h)) _ _
  rcases runSoon_cases hs with ⟨hbusy, rfl⟩ | ⟨hidle, hnone, ⟨c, hc, hl, rfl⟩ | ⟨hcur, rfl⟩⟩
  · refine ⟨hn.apart, hsame, fun e' hr hsch => ?_⟩
    by_cases he : e' = e
    · subst he
      rcases hbusy with hb | hb
      · rw [hr] at hb; cases hb
      · exact absurd hsch hb
    · rw [hother e' he]
      exact hn.slated e' hr hsch
  · have hrun : s.running c = true := by
      rw [hm.running c]
      exact runningOf_currentOf (hm.current.symm.trans hc)
    refine ⟨hn.apart, fun l e' h => ?_, fun e' hr hsch => ?_⟩
    · rcases mem_emplaceBack (s := { s.schedule e with
        scheduled := Function.update s.scheduled e (some c) }) (l := s.ready c) h with h | ⟨rfl, he⟩
      · exact hsame l e' h
      · cases he
        rw [hready c]
        exact hl.symm
    · by_cases he : e' = e
      · subst he
        have hsch' : Function.update s.scheduled e' (some c) e' = none := hsch
        rw [Function.update_self] at hsch'
        cases hsch'
      · have hec : e' ≠ c := by
          rintro rfl
          have hr' : s.running e' = false := hr
          rw [hrun] at hr'
          cases hr'
        have hsch' : Function.update s.scheduled e (some c) e' = none := hsch
        rw [Function.update_of_ne he] at hsch'
        have hlist : ((s.schedule e).scheduleOn e c).lists (.buffer e') =
            (s.schedule e).lists (.buffer e') := by
          simp only [State.scheduleOn, State.emplaceBack]
          refine Function.update_of_ne ?_ _ _
          rw [show (s.schedule e).ready c = s.ready c from rfl, hready c]
          exact fun h => hec (ListRef.buffer.inj h)
        rw [hlist, hother e' he]
        exact hn.slated e' hr hsch'
  · -- `e` is run at once: by the condition of the run, no callback of its loop is in progress.
    refine ⟨⟨hready e, fun hx => ?_, fun e₀ l p b st h => ?_, hn.apart⟩, hsame,
      fun e' hr hsch => ?_⟩
    · obtain ⟨e', he', hr⟩ := running_of_mem_callbackLoops hm.nested hx
      have hfree := hok hidle hnone hcur e' he'
      rw [hm.running e', hr] at hfree
      cases hfree
    · have h' : s.stack = .drain e₀ l p b :: st := h
      rw [h'] at hu
      cases hu
    · have hr' : Function.update s.running e true e' = false := hr
      by_cases he : e' = e
      · subst he
        rw [Function.update_self] at hr'
        cases hr'
      · rw [Function.update_of_ne he] at hr'
        exact (hother e' he).trans (hn.slated e' hr' hsch)

/-- The step lemma of cooperative runs. -/
theorem Unnested.step (hm : Mirror s) (hn : Unnested loop s) {a : Action E}
    (hok : Cooperative loop s a) (hs : step loop s a = .ok t) : Unnested loop t := by
  cases a with
  | runSoon e =>
    obtain ⟨hu, hs⟩ := step_runSoon_cases hs
    exact hn.runSoon hm hu hok hs
  | drain e => exact hok.elim
  | capture e => exact hok.elim
  | tick => exact hn.tick hm hs
  | ret =>
    have ha := hn.apart
    rcases ret_cases hs with ⟨id, tasks, below, hst, rfl⟩ | ⟨e, k, old, below, hst, rfl⟩
    · rw [hst] at ha
      exact ⟨ha, hn.sameLoop, hn.slated⟩
    · rw [hst] at ha
      exact ha.elim

/-- The run lemma. -/
theorem unnested_of_reach (hr : Reach (step loop) (Cooperative loop) .init s) :
    Unnested loop s := by
  refine hr.invariant_of (J := Mirror) (fun _ => mirror_of_reach) ?_
    fun _ _ _ hm hn hok hs => hn.step hm hok hs
  exact ⟨trivial, fun l e h => (by cases h), fun _ _ _ => rfl⟩

/-! ### The result -/

/-- A step that is not cooperative nests a callback at the next iteration. -/
theorem nests_of_not_cooperative (hm : Mirror s) (hn : Unnested loop s) {e : E}
    (hu : userInControl s.stack = true) (hok : ¬ Cooperative loop s (.runSoon e)) :
    ∃ t u, step loop s (.runSoon e) = .ok t ∧ step loop t .tick = .ok u ∧
      ¬ (callbackLoops loop u.stack).Nodup := by
  obtain ⟨hidle, hnone, hcur, e', hl, hrun⟩ : s.running e = false ∧ s.scheduled e = none ∧
      (∀ c, s.current = some c → loop c ≠ loop e) ∧
      ∃ e', loop e' = loop e ∧ s.running e' = true := by
    simpa [Cooperative] using hok
  have hready : s.ready e = .buffer e := by rw [hm.ready e, readyOf_of_apart hn.apart]
  have hsoon : (s.schedule e).runSoon loop e = .ok ((s.schedule e).drain e (.buffer e)) := by
    have honce : (s.schedule e).runOnce e = (s.schedule e).drain e (.buffer e) := by
      rw [runOnce_of_unscheduled (s := s.schedule e) hidle hnone, ← hready]
      rfl
    have hskip : ¬ ((s.schedule e).running e = true ∨ ((s.schedule e).scheduled e).isSome) := by
      simp [State.schedule, State.emplaceBack, hidle, hnone]
    rw [State.runSoon, if_neg hskip]
    cases hc : s.current with
    | none => simp only [State.schedule, State.emplaceBack, hc] at honce ⊢; rw [honce]
    | some c =>
      simp only [State.schedule, State.emplaceBack, hc, if_neg (hcur c hc)] at honce ⊢
      rw [honce]
  have hlist : ((s.schedule e).drain e (.buffer e)).lists (.buffer e) = [.callback s.nextId] := by
    simp [State.drain, State.schedule, State.emplaceBack, hready, hn.slated e hidle hnone]
  refine ⟨(s.schedule e).drain e (.buffer e),
    ((s.schedule e).drain e (.buffer e)).started (.buffer e) [] s.nextId, ?_, ?_, ?_⟩
  · simp only [step, if_pos hu, hsoon]
  · exact tick_callback rfl hlist
  · have hmem : loop e ∈ callbackLoops loop s.stack := by
      rw [hm.running e'] at hrun
      rcases mem_callbackLoops_or hm.nested hn.apart hrun with h | ⟨_, _, _, _, _, h, -⟩
      · exact hl ▸ h
      · rw [h] at hu
        cases hu
    exact fun hnd => (List.nodup_cons.1 hnd).1 hmem

/-- In a cooperative run no callback starts while another one of the same event loop is in
progress; and the first step that is not cooperative is followed by one that does. -/
theorem callbacks_not_nested (hr : Reach (step loop) (Cooperative loop) .init s) :
    (callbackLoops loop s.stack).Nodup ∧
    ∀ e, userInControl s.stack = true → ¬ Cooperative loop s (.runSoon e) →
      ∃ t u, step loop s (.runSoon e) = .ok t ∧ step loop t .tick = .ok u ∧
        ¬ (callbackLoops loop u.stack).Nodup := by
  have hm : Mirror s := mirror_of_reach hr
  have hn := unnested_of_reach hr
  exact ⟨nodup_callbackLoops hm.nested hn.apart,
    fun e hu hok => nests_of_not_cooperative hm hn hu hok⟩

/-- The event loops of three executors: the first and the last share one. -/
def twoLoops : Fin 3 → Bool
  | 0 => false
  | 1 => true
  | 2 => false

/-- Executor `0` starts a callback, which submits to executor `2` of the same event loop. -/
theorem callbacks_not_nested_deferred :
    ∃ s, exec (step twoLoops) .init [.runSoon 0, .tick, .runSoon 2] = .ok s ∧
      s.scheduled 2 = some 0 ∧ (callbackLoops twoLoops s.stack).Nodup := by
  refine ⟨_, rfl, rfl, ?_⟩
  refine (callbacks_not_nested (Reach.tail (a := .runSoon 2) (Reach.tail
    (a := .tick) (Reach.tail (a := .runSoon 0) .refl ?_ rfl) trivial rfl) ?_ rfl)).1
  · exact fun _ _ _ _ _ => rfl
  · exact fun _ _ h => absurd rfl (h 0 rfl)

/-- Executor `0` runs a callback, which submits to executor `1` of another event loop, whose
callback submits to executor `2`. -/
def throughAnotherLoop : List (Action (Fin 3)) :=
  [.runSoon 0, .tick, .runSoon 1, .tick, .runSoon 2, .tick]

/-- So callbacks of one event loop can be nested. -/
theorem not_callbacks_not_nested :
    ¬ ∀ s : State (Fin 3), Reach (step twoLoops) Plain .init s →
      (callbackLoops twoLoops s.stack).Nodup := by
  intro h
  have hplain : Meets (step twoLoops) Plain .init throughAnotherLoop :=
    meets_of_forall (by simp [throughAnotherLoop, Plain]) _
  have hnd := h _ (reach_of_exec hplain rfl)
  revert hnd
  decide

end Corral.Executor
