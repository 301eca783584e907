import Corral.Executor.Stack

/-!
# `Executor`: destruction

`Executor::~Executor()`.  Where the `runOnce()` of the executor waits in a list of another one, the
destructor replaces it by a callback that does nothing; but it looks for it in `buffer_` of that
executor only, and a `runOnce()` that was submitted within a `capture()` is in the list of the
capture.

* `Thread`: the executors of a thread, some of which have been destroyed.  Whoever uses one of these
  has a dangling pointer, except for the `drain()` calls in progress, which the destructor tells to
  leave;
* `Called`: a `runOnce()` is queued once at most, with the executor that `scheduled_` points to;
* `silenced_iff`: the destructor leaves no call behind if and only if there is none in the list of a
  capture.
-/

namespace Corral.Executor

open ActionMachine

variable {E L : Type*} [DecidableEq E] [DecidableEq L] (loop : E → L)

/-! ### The model -/

/-- The executors of a thread; `noops` are the callbacks that destructors have put in the place of a
`runOnce()`. -/
structure Thread (E : Type*) where
  state : State E
  destroyed : E → Bool
  noops : List ℕ

/-- Why an action has no successor. -/
inductive Defect
  | fault (f : Fault)
  | assertion
  | dangling
  deriving DecidableEq

inductive ThreadAction (E : Type*)
  | act (a : Action E)
  | destroy (e : E)

def Thread.init : Thread E := ⟨.init, fun _ => false, []⟩

def Thread.lift (s : Thread E) : Except Fault (State E) → Except Defect (Thread E)
  | .ok t => .ok { s with state := t }
  | .error f => .error (.fault f)

/-- The executor that `runSoon()` of `e` looks at: `current()`, if it gets there. -/
def State.consults (s : State E) (e : E) : Option E :=
  if s.running e ∨ (s.scheduled e).isSome then none else s.current

/-- The `for_each_item()` in the destructor of `e`, on `buffer_` of `c`. -/
def Thread.silence (s : Thread E) (e c : E) : Thread E :=
  { s with
    state := { s.state with
      lists := Function.update s.state.lists (.buffer c) ((s.state.lists (.buffer c)).map fun x =>
        if x = .runOnce e then .callback s.state.nextId else x)
      nextId := s.state.nextId + 1 }
    noops := s.state.nextId :: s.noops }

/-- The end of the destructor of `e`; `*running_ = false` shows in the `drain()` calls in
progress. -/
def Thread.bury (s : Thread E) (e : E) : Thread E :=
  { s with
    state := { s.state with
      current := if s.state.current = some e then none else s.state.current }
    destroyed := Function.update s.destroyed e true }

/-- `Executor::~Executor()`. -/
def Thread.destroy (s : Thread E) (e : E) : Except Defect (Thread E) :=
  if s.destroyed e then .error .dangling
  else match s.state.scheduled e with
    | some c =>
      if s.destroyed c then .error .dangling
      else
        let s' := s.silence e c
        if s'.state.lists (.buffer e) = [] then .ok (s'.bury e) else .error .assertion
    | none => if s.state.lists (.buffer e) = [] then .ok (s.bury e) else .error .assertion

/-- The drain in control executes an iteration of its loop, or leaves it because its executor has
been destroyed. -/
def Thread.tick (s : Thread E) : Except Defect (Thread E) :=
  match s.state.stack with
  | .drain e tasks prev _ :: below =>
    if s.destroyed e then .ok { s with state := { s.state with current := prev, stack := below } }
    else match s.state.lists tasks with
      | .callback id :: rest =>
        if id ∈ s.noops then .ok { s with state := s.state.popFront tasks rest }
        else s.lift s.state.tick
      | .runOnce e' :: _ => if s.destroyed e' then .error .dangling else s.lift s.state.tick
      | [] => s.lift s.state.tick
  | _ => .error (.fault .control)

/-- Return from a callback, or from a captured function. -/
def Thread.ret (s : Thread E) : Except Defect (Thread E) :=
  match s.state.stack with
  | .capture e _ _ :: _ => if s.destroyed e then .error .dangling else s.lift s.state.ret
  | _ => s.lift s.state.ret

/-- An action of the model without destruction. -/
def Thread.perform (s : Thread E) : Action E → Except Defect (Thread E)
  | .runSoon e =>
    if s.destroyed e ∨ ∃ c ∈ s.state.consults e, s.destroyed c = true then .error .dangling
    else s.lift (step loop s.state (.runSoon e))
  | .drain e =>
    if s.destroyed e then .error .dangling else s.lift (step loop s.state (.drain e))
  | .capture e =>
    if s.destroyed e then .error .dangling else s.lift (step loop s.state (.capture e))
  | .ret => s.ret
  | .tick => s.tick

/-- One action. -/
def Thread.step (s : Thread E) : ThreadAction E → Except Defect (Thread E)
  | .act a => s.perform loop a
  | .destroy e =>
    if userInControl s.state.stack then s.destroy e else .error (.fault .control)

variable {loop} {s t : Thread E}

/-- Everything that a step can have done. -/
inductive Thread.Step (loop : E → L) (s : Thread E) : ThreadAction E → Thread E → Prop
  | act {a : Action E} {u : State E} : Executor.step loop s.state a = .ok u →
      (∀ e, a = .runSoon e → s.destroyed e = false) → Step loop s (.act a) { s with state := u }
  | leave {e : E} {tasks : ListRef E} {prev : Option E} {first : Bool} {below : List (Frame E)} :
      s.state.stack = .drain e tasks prev first :: below →
      Step loop s (.act .tick) { s with state := { s.state with current := prev, stack := below } }
  | noop {tasks : ListRef E} {id : ℕ} {rest : List (Task E)} :
      s.state.lists tasks = .callback id :: rest →
      Step loop s (.act .tick) { s with state := s.state.popFront tasks rest }
  | destroy {e : E} : s.state.scheduled e = none → s.state.lists (.buffer e) = [] →
      Step loop s (.destroy e) (s.bury e)
  | silence {e c : E} : s.state.scheduled e = some c →
      Step loop s (.destroy e) ((s.silence e c).bury e)

omit [DecidableEq E] in
theorem Thread.lift_eq_ok {x : Except Fault (State E)} (h : s.lift x = .ok t) :
    ∃ u, x = .ok u ∧ t = { s with state := u } := by
  cases x with
  | ok u => exact ⟨u, rfl, (Except.ok.inj h).symm⟩
  | error f => cases h

theorem Thread.step_of_lift {a : Action E} (h : s.lift (Executor.step loop s.state a) = .ok t)
    (ha : ∀ e, a = .runSoon e → s.destroyed e = false) : Thread.Step loop s (.act a) t := by
  obtain ⟨u, hu, rfl⟩ := Thread.lift_eq_ok h
  exact .act hu ha

theorem Thread.tick_cases (h : s.tick = .ok t) : Thread.Step loop s (.act .tick) t := by
  unfold Thread.tick at h
  split at h
  · rename_i hst
    split_ifs at h with hd
    · cases h
      exact .leave hst
    · split at h
      · rename_i hx
        split_ifs at h with hid
        · cases h
          exact .noop hx
        · exact Thread.step_of_lift h (by simp)
      · split_ifs at h
        exact Thread.step_of_lift h (by simp)
      · exact Thread.step_of_lift h (by simp)
  · cases h

theorem Thread.destroy_cases {e : E} (h : s.destroy e = .ok t) :
    Thread.Step loop s (.destroy e) t := by
  unfold Thread.destroy at h
  split at h
  · cases h
  split at h
  · rename_i hsch
    simp only at h
    split_ifs at h
    cases h
    exact .silence hsch
  · rename_i hsch
    split_ifs at h with hnil
    cases h
    exact .destroy hsch hnil

theorem Thread.step_cases {a : ThreadAction E} (h : s.step loop a = .ok t) :
    Thread.Step loop s a t := by
  cases a with
  | destroy e =>
    simp only [Thread.step] at h
    split_ifs at h
    exact Thread.destroy_cases h
  | act a =>
    simp only [Thread.step] at h
    cases a with
    | runSoon e =>
      simp only [Thread.perform] at h
      split_ifs at h with hd
      refine Thread.step_of_lift h fun e' he => ?_
      cases he
      simpa using (not_or.1 hd).1
    | drain e | capture e =>
      simp only [Thread.perform] at h
      split_ifs at h
      exact Thread.step_of_lift h (by simp)
    | ret =>
      simp only [Thread.perform, Thread.ret] at h
      split at h
      · split_ifs at h
        exact Thread.step_of_lift h (by simp)
      · exact Thread.step_of_lift h (by simp)
    | tick => exact Thread.tick_cases h

/-! ### Where the calls are -/

/-- The executor whose `runOnce()` the task calls. -/
def Task.called : Task E → Option E
  | .runOnce e => some e
  | .callback _ => none

/-- The executors whose `runOnce()` waits in the list. -/
def State.calls (s : State E) (l : ListRef E) : List E := (s.lists l).filterMap Task.called

omit [DecidableEq E] in
theorem mem_calls {s : State E} {l : ListRef E} {e : E} :
    e ∈ s.calls l ↔ .runOnce e ∈ s.lists l := by
  rw [State.calls, List.mem_filterMap]
  constructor
  · rintro ⟨x, hx, he⟩
    cases x with
    | callback id => cases he
    | runOnce e' => cases he; exact hx
  · exact fun h => ⟨_, h, rfl⟩

/-- A `runOnce()` waits at most once, in a list of the executor that `scheduled_` points to. -/
structure Called (s : State E) : Prop where
  ready : ∀ e, (s.ready e).owner = e
  saved : ∀ e k oldReady, .capture e k oldReady ∈ s.stack → oldReady.owner = e
  scheduled : ∀ l, ∀ e ∈ s.calls l, s.scheduled e = some l.owner
  nodup : ∀ l, (s.calls l).Nodup
  apart : ∀ l l' e, e ∈ s.calls l → e ∈ s.calls l' → l = l'

section Called

variable {s t : State E}

omit [DecidableEq E] in
theorem called_init : Called (State.init : State E) := by
  constructor <;> simp [State.init, State.calls, ListRef.owner]

omit [DecidableEq E] in
/-- No call is submitted. -/
theorem Called.fewer (hc : Called s) (hl : ∀ l, (t.calls l).Sublist (s.calls l))
    (hs : ∀ l, ∀ e ∈ t.calls l, t.scheduled e = s.scheduled e)
    (hr : ∀ e, t.ready e = s.ready e ∨ (t.ready e).owner = e)
    (hst : ∀ f ∈ t.stack, f ∈ s.stack ∨ ∀ e k oldReady, f = .capture e k oldReady →
      oldReady.owner = e) : Called t where
  ready e := (hr e).elim (fun h => h ▸ hc.ready e) id
  saved e k oldReady h := (hst _ h).elim (hc.saved e k oldReady) fun hf => hf e k oldReady rfl
  scheduled l e he := (hs l e he).trans (hc.scheduled l e ((hl l).subset he))
  nodup l := (hc.nodup l).sublist (hl l)
  apart l l' e h h' := hc.apart l l' e ((hl l).subset h) ((hl l').subset h')

theorem Called.drain (hc : Called s) (e : E) (l : ListRef E) : Called (s.drain e l) := by
  refine hc.fewer (fun l => List.Sublist.refl _) (fun _ _ _ => rfl) (fun _ => Or.inl rfl)
    fun f hf => ?_
  rcases List.mem_cons.1 hf with rfl | hf
  · exact Or.inr (by simp)
  · exact Or.inl hf

theorem calls_schedule (s : State E) (e : E) (l : ListRef E) :
    (s.schedule e).calls l = s.calls l := by
  simp only [State.calls, State.schedule, State.emplaceBack, Function.update_apply]
  split_ifs with h
  · rw [List.filterMap_append, ← h]
    exact List.append_nil _
  · rfl

theorem calls_scheduleOn (s : State E) (e c : E) (l : ListRef E) :
    (s.scheduleOn e c).calls l = if l = s.ready c then s.calls l ++ [e] else s.calls l := by
  simp only [State.calls, State.scheduleOn, State.emplaceBack, Function.update_apply]
  split_ifs with h
  · rw [List.filterMap_append, h]
    rfl
  · rfl

theorem mem_calls_scheduleOn {e c e' : E} {l : ListRef E} (he : e' ∈ (s.scheduleOn e c).calls l) :
    e' ∈ s.calls l ∨ l = s.ready c ∧ e' = e := by
  rw [calls_scheduleOn] at he
  split_ifs at he with h
  · exact (List.mem_append.1 he).imp_right fun he => ⟨h, List.mem_singleton.1 he⟩
  · exact Or.inl he

theorem Called.schedule (hc : Called s) (e : E) : Called (s.schedule e) := by
  refine hc.fewer (fun l => ?_) (fun _ _ _ => rfl) (fun _ => Or.inl rfl) fun f hf => Or.inl hf
  rw [calls_schedule]

theorem calls_popFront_callback {l : ListRef E} {id : ℕ} {rest : List (Task E)}
    (hx : s.lists l = .callback id :: rest) (l' : ListRef E) :
    (s.popFront l rest).calls l' = s.calls l' := by
  simp only [State.calls, State.popFront, Function.update_apply]
  split_ifs with h
  · rw [h, hx]
    rfl
  · rfl

theorem calls_popFront_runOnce {l : ListRef E} {e : E} {rest : List (Task E)}
    (hx : s.lists l = .runOnce e :: rest) (l' : ListRef E) :
    s.calls l' = if l' = l then e :: (s.popFront l rest).calls l' else (s.popFront l rest).calls l' := by
  simp only [State.calls, State.popFront, Function.update_apply]
  split_ifs with h
  · rw [h, hx]
    rfl
  · rfl

/-- A call that is taken out is not queued any more. -/
theorem Called.popRunOnce (hc : Called s) {l : ListRef E} {e : E} {rest : List (Task E)}
    (hx : s.lists l = .runOnce e :: rest) : Called ((s.popFront l rest).unschedule e) := by
  have hmem : e ∈ s.calls l := by
    rw [calls_popFront_runOnce hx, if_pos rfl]
    exact List.mem_cons_self
  refine hc.fewer (fun l' => ?_) (fun l' e' he => ?_) (fun _ => Or.inl rfl) fun f hf => Or.inl hf
  · rw [calls_popFront_runOnce hx]
    split_ifs
    · exact List.sublist_cons_self _ _
    · exact List.Sublist.refl _
  · refine Function.update_of_ne (fun heq => ?_) _ _
    replace he : e ∈ (s.popFront l rest).calls l' := heq ▸ he
    by_cases hl : l' = l
    · have hnodup := hc.nodup l'
      rw [calls_popFront_runOnce hx, if_pos hl] at hnodup
      exact (List.nodup_cons.1 hnodup).1 he
    · have hmem' : e ∈ s.calls l' := by
        rw [calls_popFront_runOnce hx, if_neg hl]
        exact he
      exact hl (hc.apart l' l e hmem' hmem)

theorem Called.runOnce {e : E} (hc : Called (s.unschedule e)) : Called (s.runOnce e) := by
  rcases runOnce_cases s e with ⟨-, h⟩ | ⟨-, h⟩ <;> rw [h]
  · exact hc
  · exact hc.drain e _

/-- The call is submitted to the current executor. -/
theorem Called.scheduleOn (hc : Called s) {e c : E} (hn : s.scheduled e = none) :
    Called (s.scheduleOn e c) := by
  have hnot : ∀ l, e ∉ s.calls l := fun l he => by
    have := hc.scheduled l e he
    rw [hn] at this
    cases this
  refine ⟨hc.ready, hc.saved, fun l e' he => ?_, fun l => ?_, fun l l' e' he he' => ?_⟩
  · rcases mem_calls_scheduleOn he with he | ⟨rfl, rfl⟩
    · have hne : e' ≠ e := fun heq => hnot l (heq ▸ he)
      exact (Function.update_of_ne hne _ _).trans (hc.scheduled l e' he)
    · rw [hc.ready c]
      exact Function.update_self _ _ _
  · rw [calls_scheduleOn]
    split_ifs
    · refine List.nodup_append.2 ⟨hc.nodup l, List.nodup_singleton e, fun x hx y hy => ?_⟩
      rw [List.mem_singleton.1 hy]
      exact fun heq => hnot l (heq ▸ hx)
    · exact hc.nodup l
  · rcases mem_calls_scheduleOn he with he | ⟨rfl, rfl⟩ <;>
      rcases mem_calls_scheduleOn he' with he' | ⟨rfl, hee⟩
    · exact hc.apart l l' e' he he'
    · exact absurd (hee ▸ he) (hnot l)
    · exact absurd he' (hnot l')
    · rfl

theorem Called.capture (hc : Called s) (e : E) : Called (s.capture e) := by
  refine hc.fewer (fun l => ?_) (fun _ _ _ => rfl) (fun e' => ?_) fun f hf => ?_
  · simp only [State.calls, State.capture, Function.update_apply]
    split_ifs
    · exact List.nil_sublist _
    · exact List.Sublist.refl _
  · by_cases h : e' = e
    · subst h
      refine Or.inr ?_
      simp only [State.capture, Function.update_self]
      rfl
    · exact Or.inl (Function.update_of_ne h _ _)
  · rcases List.mem_cons.1 hf with rfl | hf
    · refine Or.inr fun e' k old heq => ?_
      cases heq
      exact hc.ready _
    · exact Or.inl hf

omit [DecidableEq E] in
/-- A call returns. -/
theorem Called.pop (hc : Called s) {f : Frame E} {below : List (Frame E)}
    (hst : s.stack = f :: below) (hl : t.lists = s.lists) (hs : t.scheduled = s.scheduled)
    (hr : ∀ e, t.ready e = s.ready e ∨ (t.ready e).owner = e) (ht : t.stack = below) : Called t := by
  refine hc.fewer (fun l => ?_) (fun _ e _ => by rw [hs]) hr fun g hg => Or.inl ?_
  · rw [State.calls, State.calls, hl]
  · rw [hst]
    exact List.mem_cons_of_mem _ (ht ▸ hg)

/-- The step lemma without destruction. -/
theorem Called.step (hc : Called s) {a : Action E} (hs : Executor.step loop s a = .ok t) :
    Called t := by
  cases a with
  | runSoon e =>
    obtain ⟨-, h⟩ := step_runSoon_cases hs
    rcases runSoon_cases h with ⟨-, rfl⟩ | ⟨-, hn, ⟨c, -, -, rfl⟩ | ⟨-, rfl⟩⟩
    · exact hc.schedule e
    · exact (hc.schedule e).scheduleOn hn
    · exact (hc.schedule e).drain e _
  | drain e =>
    obtain ⟨-, rfl⟩ := step_drain_cases hs
    exact hc.drain e _
  | capture e =>
    obtain ⟨-, rfl⟩ := step_capture_cases hs
    exact hc.capture e
  | ret =>
    rcases ret_cases hs with ⟨id, l, below, hst, rfl⟩ | ⟨e, k, old, below, hst, rfl⟩
    · exact hc.pop hst rfl rfl (fun _ => Or.inl rfl) rfl
    · have hold : old.owner = e := hc.saved e k old (hst ▸ List.mem_cons_self)
      have hpop : Called { s with ready := Function.update s.ready e old, stack := below } := by
        refine hc.pop hst rfl rfl (fun e' => ?_) rfl
        by_cases h : e' = e
        · subst h
          exact Or.inr (by simpa only [Function.update_self] using hold)
        · exact Or.inl (Function.update_of_ne h _ _)
      exact hpop.drain e _
  | tick =>
    obtain ⟨e, l, prev, first, below, hst, h⟩ := tick_cases hs
    rcases h with ⟨-, rfl⟩ | ⟨id, rest, hx, rfl⟩ | ⟨e', rest, hx, rfl⟩
    · exact hc.pop hst rfl rfl (fun _ => Or.inl rfl) rfl
    · refine hc.fewer (fun l' => ?_) (fun _ _ _ => rfl) (fun _ => Or.inl rfl) fun f hf => ?_
      · have heq : (s.started l rest id).calls l' = s.calls l' := calls_popFront_callback hx l'
        rw [heq]
      · rcases List.mem_cons.1 hf with rfl | hf
        · exact Or.inr (by simp)
        · exact Or.inl hf
    · exact (hc.popRunOnce hx).runOnce

/-- Only `runSoon()` submits a call. -/
theorem calls_of_step {a : Action E} (hs : Executor.step loop s a = .ok t) {e : E} {l : ListRef E}
    (he : e ∈ t.calls l) : e ∈ s.calls l ∨ a = .runSoon e := by
  cases a with
  | runSoon e' =>
    obtain ⟨-, h⟩ := step_runSoon_cases hs
    have hold : ∀ {e l}, e ∈ (s.schedule e').calls l → e ∈ s.calls l := fun he => by
      rwa [calls_schedule] at he
    rcases runSoon_cases h with ⟨-, rfl⟩ | ⟨-, -, ⟨c, -, -, rfl⟩ | ⟨-, rfl⟩⟩
    · exact Or.inl (hold he)
    · rcases mem_calls_scheduleOn he with he | ⟨-, rfl⟩
      · exact Or.inl (hold he)
      · exact Or.inr rfl
    · exact Or.inl (hold he)
  | drain e' =>
    obtain ⟨-, rfl⟩ := step_drain_cases hs
    exact Or.inl he
  | capture e' =>
    obtain ⟨-, rfl⟩ := step_capture_cases hs
    simp only [State.calls, State.capture, Function.update_apply] at he
    split_ifs at he
    · cases he
    · exact Or.inl he
  | ret =>
    rcases ret_cases hs with ⟨id, l', below, hst, rfl⟩ | ⟨e', k, old, below, hst, rfl⟩
    · exact Or.inl he
    · exact Or.inl he
  | tick =>
    obtain ⟨e', l', prev, first, below, hst, h⟩ := tick_cases hs
    rcases h with ⟨-, rfl⟩ | ⟨id, rest, hx, rfl⟩ | ⟨e'', rest, hx, rfl⟩
    · exact Or.inl he
    · have heq : (s.started l' rest id).calls l = s.calls l := calls_popFront_callback hx l
      exact Or.inl (heq ▸ he)
    · have heq : ((s.popFront l' rest).runOnce e'').calls l = (s.popFront l' rest).calls l := by
        rcases runOnce_cases (s.popFront l' rest) e'' with ⟨-, h⟩ | ⟨-, h⟩ <;> rw [h] <;> rfl
      rw [heq] at he
      rw [calls_popFront_runOnce hx]
      split_ifs
      · exact Or.inl (List.mem_cons_of_mem _ he)
      · exact Or.inl he

end Called

/-! ### The destructor -/

/-- The calls that `for_each_item()` leaves. -/
theorem calls_silence (s : Thread E) (e c : E) (l : ListRef E) :
    (s.silence e c).state.calls l =
      if l = .buffer c then (s.state.calls l).filter (· ≠ e) else s.state.calls l := by
  have hcall : ∀ e : E, Task.called (.runOnce e) = some e := fun _ => rfl
  have hmap : ∀ xs : List (Task E), (xs.map fun x => if x = .runOnce e then
      .callback s.state.nextId else x).filterMap Task.called =
      (xs.filterMap Task.called).filter (· ≠ e) := by
    intro xs
    induction xs with
    | nil => rfl
    | cons x xs ih =>
      rw [List.map_cons]
      by_cases hx : x = .runOnce e
      · subst hx
        rw [if_pos rfl, List.filterMap_cons_none rfl, List.filterMap_cons_some (hcall e), ih,
          List.filter_cons_of_neg (by simp)]
      · rw [if_neg hx]
        cases x with
        | callback id => rw [List.filterMap_cons_none rfl, List.filterMap_cons_none rfl, ih]
        | runOnce e' =>
          have hne : e' ≠ e := fun h => hx (h ▸ rfl)
          rw [List.filterMap_cons_some (hcall e'), List.filterMap_cons_some (hcall e'), ih,
            List.filter_cons_of_pos (by simpa using hne)]
  simp only [State.calls, Thread.silence, Function.update_apply]
  split_ifs with h
  · rw [h, hmap]
  · rfl

theorem calls_silence_sublist (s : Thread E) (e c : E) (l : ListRef E) :
    ((s.silence e c).state.calls l).Sublist (s.state.calls l) := by
  rw [calls_silence]
  split_ifs
  · exact List.filter_sublist
  · exact List.Sublist.refl _

theorem Called.silence (hc : Called s.state) (e c : E) : Called (s.silence e c).state :=
  hc.fewer (calls_silence_sublist s e c) (fun _ _ _ => rfl) (fun _ => Or.inl rfl)
    fun _ hf => Or.inl hf

omit [DecidableEq E] in
theorem Called.congr {s t : State E} (hc : Called s) (hl : t.lists = s.lists)
    (hs : t.scheduled = s.scheduled) (hr : t.ready = s.ready) (hst : t.stack = s.stack) :
    Called t := by
  refine hc.fewer (fun l => ?_) (fun _ e _ => by rw [hs]) (fun e => Or.inl (by rw [hr]))
    fun f hf => Or.inl (hst ▸ hf)
  rw [State.calls, State.calls, hl]

/-- The step lemma. -/
theorem Called.threadStep (hc : Called s.state) {a : ThreadAction E} (h : s.step loop a = .ok t) :
    Called t.state := by
  cases Thread.step_cases h with
  | act hs => exact hc.step hs
  | leave hst => exact hc.pop hst rfl rfl (fun _ => Or.inl rfl) rfl
  | noop hx =>
    refine hc.fewer (fun l => ?_) (fun _ _ _ => rfl) (fun _ => Or.inl rfl) fun f hf => Or.inl hf
    rw [calls_popFront_callback hx]
  | destroy => exact hc.congr rfl rfl rfl rfl
  | silence => exact (hc.silence _ _).congr rfl rfl rfl rfl

theorem called_of_reach {ok : Thread E → ThreadAction E → Prop}
    (hr : Reach (Thread.step loop) ok .init s) : Called s.state :=
  hr.invariant (I := fun s => Called s.state) called_init fun _ _ _ hc _ h => hc.threadStep h

/-- The executor has been destroyed, and nobody is going to call it. -/
def Thread.Silent (s : Thread E) (e : E) : Prop :=
  s.destroyed e = true ∧ ∀ l, e ∉ s.state.calls l

theorem Thread.destroyed_bury {e : E} (h : s.destroyed e = true) (e' : E) :
    (s.bury e').destroyed e = true := by
  simp only [Thread.bury, Function.update_apply]
  split_ifs
  · rfl
  · exact h

theorem Thread.Silent.step {e : E} (hi : s.Silent e) {a : ThreadAction E}
    (h : s.step loop a = .ok t) : t.Silent e := by
  cases Thread.step_cases h with
  | act hs hd =>
    refine ⟨hi.1, fun l he => ?_⟩
    rcases calls_of_step hs he with he | rfl
    · exact hi.2 l he
    · have := hd e rfl
      rw [hi.1] at this
      cases this
  | leave => exact hi
  | noop hx => exact ⟨hi.1, fun l he => hi.2 l (calls_popFront_callback hx l ▸ he)⟩
  | destroy => exact ⟨Thread.destroyed_bury hi.1 _, hi.2⟩
  | silence =>
    exact ⟨Thread.destroyed_bury hi.1 _, fun l he => hi.2 l ((calls_silence_sublist s _ _ l).subset he)⟩

/-- The destructor of `e`, which is scheduled on `c`, finds the call unless it is in the list of a
capture. -/
theorem calls_destroyed (hc : Called s.state) {e c : E} (hsch : s.state.scheduled e = some c)
    (hcap : ∀ d k, e ∉ s.state.calls (.tmp d k)) (l : ListRef E) :
    e ∉ (s.silence e c).state.calls l := by
  intro he
  rw [calls_silence] at he
  split_ifs at he with hl
  · simp at he
  · cases l with
    | tmp d k => exact hcap d k he
    | buffer d =>
      have howner := hc.scheduled _ e he
      rw [hsch] at howner
      cases howner
      exact hl rfl

variable (loop) in
/-- The destructor of an executor whose `runOnce()` is scheduled leaves no call of it behind, now or
later, if and only if no list of a capture holds one. -/
theorem silenced_iff {e : E} (hr : Reach (Thread.step loop) anyAction .init s)
    (hs : s.step loop (.destroy e) = .ok t) (hsch : s.state.scheduled e ≠ none) :
    (∀ u, Reach (Thread.step loop) anyAction t u → ∀ l, .runOnce e ∉ u.state.lists l) ↔
      ∀ d k, .runOnce e ∉ s.state.lists (.tmp d k) := by
  have hc := called_of_reach hr
  cases Thread.step_cases hs with
  | destroy hnone => exact absurd hnone hsch
  | silence hsome =>
    rename_i c
    constructor
    · intro h d k hmem
      refine h _ .refl (.tmp d k) ?_
      have hold : (s.silence e c).state.lists (.tmp d k) = s.state.lists (.tmp d k) := by
        simp [Thread.silence]
      exact hold ▸ hmem
    · intro hcap u hu l hmem
      have hsilent : ((s.silence e c).bury e).Silent e :=
        ⟨Function.update_self _ _ _, calls_destroyed hc hsome fun d k he => hcap d k (mem_calls.1 he)⟩
      have hlater : u.Silent e :=
        hu.invariant (I := fun u => u.Silent e) hsilent fun _ _ _ hi _ h => hi.step h
      exact hlater.2 l (mem_calls.2 hmem)

/-- A callback of the executor `false` submits to the executor `true`, drains it, and destroys it. -/
def drainedAndDestroyed : List (ThreadAction Bool) :=
  [.act (.runSoon false), .act .tick, .act (.runSoon true), .act (.drain true), .act .tick,
    .act .ret, .act .tick]

theorem silenced_iff_drainedAndDestroyed :
    ∃ s t, exec (Thread.step fun _ : Bool => ()) .init drainedAndDestroyed = .ok s ∧
      s.step (fun _ => ()) (.destroy true) = .ok t ∧ s.state.scheduled true ≠ none ∧
      ∀ l, .runOnce true ∉ t.state.lists l := by
  have hrun : ∃ s t, exec (Thread.step fun _ : Bool => ()) .init drainedAndDestroyed = .ok s ∧
      s.step (fun _ => ()) (.destroy true) = .ok t ∧ s.state.scheduled true ≠ none ∧
      ∀ d k, .runOnce true ∉ s.state.lists (.tmp d k) := by
    refine ⟨_, _, rfl, rfl, by decide, fun d k => ?_⟩
    exact List.not_mem_nil
  obtain ⟨s, t, he, hs, hsch, hcap⟩ := hrun
  exact ⟨s, t, he, hs, hsch, (silenced_iff _ (reach_of_run he) hs hsch).2 hcap t .refl⟩

/-- The same within a `capture()` of the executor `false`. -/
def destroyedInCapture : List (ThreadAction Bool) :=
  [.act (.runSoon false), .act .tick, .act (.capture false), .act (.runSoon true),
    .act (.drain true), .act .tick, .act .ret, .act .tick]

/-- So a call of an executor that has been destroyed can be left behind. -/
theorem not_silenced :
    ¬ ∀ (s t : Thread Bool) (e : Bool), Reach (Thread.step fun _ => ()) anyAction .init s →
      s.step (fun _ => ()) (.destroy e) = .ok t → s.state.scheduled e ≠ none →
      ∀ l, .runOnce e ∉ t.state.lists l := by
  intro h
  have hrun : ∃ s t, exec (Thread.step fun _ : Bool => ()) .init destroyedInCapture = .ok s ∧
      s.step (fun _ => ()) (.destroy true) = .ok t ∧ s.state.scheduled true ≠ none ∧
      .runOnce true ∈ t.state.lists (.tmp false 0) := ⟨_, _, rfl, rfl, by decide, by decide⟩
  obtain ⟨s, t, he, hs, hsch, hmem⟩ := hrun
  exact h s t true (reach_of_run he) hs hsch _ hmem

end Corral.Executor
