import Corral.Lib.History
import Corral.TryBlock.Model

/-!
# `TryBlock`: the stages

* `Allowed`: what may happen after what; every history of a block obeys it;
* `Between`: one stage is over and the next one has not begun; `Running`: a clause is in progress;
* `Left`, `Place`, `Where`: the places at which a run may stand, with what the fields of the block
  hold there;
* `where_of_finish`: from the end of a clause to the next place.
-/

namespace Corral.TryBlock

open AwaiterStateChecker History

variable {Exn : Type*} {b : Block Exn} {s t : State Exn}

/-- The handler number `i` is the first one that matches the exception. -/
def FirstMatch (b : Block Exn) (e : Exn) (i : ℕ) : Prop :=
  (∃ h, b.handlers[i]? = some h ∧ h.catches e = true) ∧
    ∀ j < i, ∀ h, b.handlers[j]? = some h → h.catches e = false

/-- The clause has ended, and its task, if it had one, is destroyed. -/
def Over (l : List (Event Exn)) (c : Clause) : Prop :=
  (∃ r, .ended c r ∈ l) ∧ (.created c ∈ l → .destroyed c ∈ l)

/-- Every clause that was started is over. -/
def AllOver (l : List (Event Exn)) : Prop := ∀ c, .started c ∈ l → Over l c

/-- What may happen after the events `l`. -/
def Allowed (b : Block Exn) (l : List (Event Exn)) : Event Exn → Prop
  | .started .body => l = []
  | .started (.handler i) => AllOver l ∧ (∀ j, .started (.handler j) ∉ l) ∧
      ∃ e, .ended .body (.threw e) ∈ l ∧ FirstMatch b e i
  | .started .cleanup => AllOver l ∧ .started .cleanup ∉ l ∧ .started .body ∈ l ∧
      ∀ e i, .ended .body (.threw e) ∈ l → FirstMatch b e i → .started (.handler i) ∈ l
  | .asked c => c ≠ .cleanup
  | .ended c r => .started c ∈ l ∧ (∀ r, .ended c r ∉ l) ∧ (r = .cancelled → .asked c ∈ l)
  | .resumed => AllOver l ∧ .resumed ∉ l ∧ (b.hasFinally = true → .started .cleanup ∈ l)
  | .outcome _ => .resumed ∈ l
  | .created c => .started c ∈ l
  | .destroyed _ => True
  | .terminated => ∃ e, .ended .cleanup (.threw e) ∈ l

/-! ### Between the stages -/

/-- What `continuation()` does once the task is destroyed. -/
def State.advance (b : Block Exn) (s : State Exn) : State Exn :=
  match s.stage with
  | .tryStage => match s.exception with
    | some e => { s with stage := .catchStage }.dispatchException b e b.handlers 0
    | none => s.invokeFinally b
  | .catchStage => s.invokeFinally b
  | .finallyStage => s.resumeParent

/-- The clause `c` has ended, and its task is destroyed. -/
def State.close (s : State Exn) (c : Clause) (r : Result Exn) : State Exn :=
  ({ s with calling := none }.record (.ended c r)).resetTask

/-- Nothing is in progress, and the parent is waiting. -/
structure Between (b : Block Exn) (s : State Exn) : Prop where
  calling : s.calling = none
  task : s.task = none
  parent : s.parent = true
  checker : s.checker.state.suspended = true
  terminated : s.terminated = false
  waiting : .resumed ∉ s.history
  started : .started .body ∈ s.history
  past : AllOver s.history
  obeys : Obeys (Allowed b) s.history

/-- The clause `c` is in progress: its lambda is being called, or its task has been started. -/
structure Running (b : Block Exn) (s : State Exn) (c : Clause) : Prop where
  clause : (s.calling = some c ∧ s.task = none ∧ .created c ∉ s.history) ∨
    (s.calling = none ∧ ∃ asked, s.task = some ⟨c, asked⟩ ∧ (asked = true → .asked c ∈ s.history))
  parent : s.parent = true
  checker : s.checker.state.suspended = true
  terminated : s.terminated = false
  waiting : .resumed ∉ s.history
  started : .started c ∈ s.history
  notEnded : ∀ r, .ended c r ∉ s.history
  body : .started .body ∈ s.history
  past : ∀ c', .started c' ∈ s.history → c' ≠ c → Over s.history c'
  obeys : Obeys (Allowed b) s.history

theorem Over.append {l : List (Event Exn)} {c : Clause} (h : Over l c) {e : Event Exn}
    (he : e ≠ .created c) : Over (l ++ [e]) c := by
  obtain ⟨⟨r, hr⟩, hd⟩ := h
  refine ⟨⟨r, List.mem_append_left _ hr⟩, fun hc => ?_⟩
  rcases List.mem_append.1 hc with hc | hc
  · exact List.mem_append_left _ (hd hc)
  · exact absurd (List.mem_singleton.1 hc).symm he

/-- A clause that ends is over. -/
theorem Running.close (hr : Running b s c) {r : Result Exn}
    (hc : r = .cancelled → .asked c ∈ s.history) :
    Between b (s.close c r) ∧ .ended c r ∈ (s.close c r).history ∧
      (∀ e ∈ s.history, e ∈ (s.close c r).history) ∧
      ∀ e ∈ (s.close c r).history, e ∈ s.history ∨ e = .ended c r ∨ e = .destroyed c := by
  have hended : Allowed b s.history (.ended c r) := ⟨hr.started, hr.notEnded, hc⟩
  have hobeys := hr.obeys.append hended
  rcases hr.clause with ⟨hcall, htask, hnew⟩ | ⟨hcall, asked, htask, -⟩
  · have heq : s.close c r = { s with calling := none }.record (.ended c r) := by
      simp only [State.close, State.resetTask, State.record, htask]
    rw [heq]
    refine ⟨⟨rfl, htask, hr.parent, hr.checker, hr.terminated, ?_, ?_, ?_, hobeys⟩, ?_, ?_, ?_⟩
    · simp [State.record, hr.waiting]
    · exact List.mem_append_left _ hr.body
    · intro c' hc'
      have hc'' : .started c' ∈ s.history := by simpa [State.record] using hc'
      by_cases hcc : c' = c
      · subst hcc
        refine ⟨⟨r, by simp [State.record]⟩, fun h => ?_⟩
        exact absurd (by simpa [State.record] using h) hnew
      · exact (hr.past c' hc'' hcc).append (by simp)
    · simp [State.record]
    · exact fun e he => List.mem_append_left _ he
    · intro e he
      simp only [State.record, List.mem_append, List.mem_singleton] at he
      tauto
  · have heq : s.close c r = ({ s with calling := none, task := none }.record
        (.ended c r)).record (.destroyed c) := by
      simp only [State.close, State.resetTask, State.record, htask]
    have hdestroyed : Allowed b (s.history ++ [.ended c r]) (.destroyed c) := trivial
    rw [heq]
    refine ⟨⟨rfl, rfl, hr.parent, hr.checker, hr.terminated, ?_, ?_, ?_,
      hobeys.append hdestroyed⟩, ?_, ?_, ?_⟩
    · simp [State.record, hr.waiting]
    · exact List.mem_append_left _ (List.mem_append_left _ hr.body)
    · intro c' hc'
      have hc'' : .started c' ∈ s.history := by simpa [State.record] using hc'
      by_cases hcc : c' = c
      · subst hcc
        exact ⟨⟨r, by simp [State.record]⟩, fun _ => by simp [State.record]⟩
      · exact ((hr.past c' hc'' hcc).append (by simp)).append (by simp)
    · simp [State.record]
    · exact fun e he => List.mem_append_left _ (List.mem_append_left _ he)
    · intro e he
      simp only [State.record, List.mem_append, List.mem_singleton] at he
      tauto

/-- What has happened was allowed by what had happened before. -/
theorem allowed_of_mem {l : List (Event Exn)} {e : Event Exn} (h : Obeys (Allowed b) l)
    (he : e ∈ l) : ∃ before after, l = before ++ e :: after ∧ Allowed b before e := by
  obtain ⟨before, after, rfl⟩ := List.append_of_mem he
  exact ⟨before, after, rfl, h before e after rfl⟩

theorem started_of_created {l : List (Event Exn)} {c : Clause} (h : Obeys (Allowed b) l)
    (hc : .created c ∈ l) : .started c ∈ l := by
  obtain ⟨before, after, rfl, ha⟩ := allowed_of_mem h hc
  exact List.mem_append_left _ ha

theorem started_of_ended {l : List (Event Exn)} {c : Clause} {r : Result Exn}
    (h : Obeys (Allowed b) l) (hc : .ended c r ∈ l) : .started c ∈ l := by
  obtain ⟨before, after, rfl, ha⟩ := allowed_of_mem h hc
  exact List.mem_append_left _ ha.1

/-- A clause ends once. -/
theorem ended_unique {l : List (Event Exn)} {c : Clause} {r r' : Result Exn}
    (h : Obeys (Allowed b) l) (hr : .ended c r ∈ l) (hr' : .ended c r' ∈ l) : r = r' := by
  induction l using List.reverseRecOn with
  | nil => cases hr
  | append_singleton l e ih =>
    obtain ⟨hl, he⟩ := h.of_append
    rcases List.mem_append.1 hr with hold | hlast
    · rcases List.mem_append.1 hr' with hold' | hlast'
      · exact ih hl hold hold'
      · cases List.mem_singleton.1 hlast'
        exact absurd hold (he.2.1 r)
    · cases List.mem_singleton.1 hlast
      rcases List.mem_append.1 hr' with hold' | hlast'
      · exact absurd hold' (he.2.1 r')
      · cases List.mem_singleton.1 hlast'
        rfl

/-- A clause that is started is in progress. -/
theorem Between.invoke (hb : Between b s) {c : Clause} (hc : .started c ∉ s.history)
    (hallowed : Allowed b s.history (.started c)) : Running b (s.invoke c) c := by
  refine ⟨.inl ⟨rfl, hb.task, ?_⟩, hb.parent, hb.checker, hb.terminated, ?_, ?_, ?_,
    List.mem_append_left _ hb.started, ?_, hb.obeys.append hallowed⟩
  · intro h
    exact hc (started_of_created hb.obeys (by simpa [State.invoke, State.record] using h))
  · simpa [State.invoke, State.record] using hb.waiting
  · simp [State.invoke, State.record]
  · intro r h
    exact hc (started_of_ended hb.obeys (by simpa [State.invoke, State.record] using h))
  · intro c' hc' hne
    have hc'' : .started c' ∈ s.history := by
      simpa [State.invoke, State.record, hne] using hc'
    exact (hb.past c' hc'').append (by simp)

/-! ### The places of a run -/

/-- The handler number `i` is not the `Ellipsis`. -/
def isTyped (b : Block Exn) (i : ℕ) : Bool :=
  match b.handlers[i]? with
  | some (.typed _) => true
  | _ => false

/-- What the body and the handlers leave in `completed_`, `exception_` and `exceptionHandled_`. -/
inductive Left (b : Block Exn) (l : List (Event Exn)) : Bool → Option Exn → Bool → Prop
  | value : .ended .body .value ∈ l → Left b l true none false
  | cancelled : .ended .body .cancelled ∈ l → Left b l false none false
  | unmatched (e : Exn) : .ended .body (.threw e) ∈ l → (∀ i, ¬ FirstMatch b e i) →
      Left b l false (some e) false
  | handled (e : Exn) (i : ℕ) : .ended .body (.threw e) ∈ l → FirstMatch b e i →
      .ended (.handler i) .value ∈ l → Left b l true none (isTyped b i)
  | replaced (e e' : Exn) (i : ℕ) : .ended .body (.threw e) ∈ l → FirstMatch b e i →
      .ended (.handler i) (.threw e') ∈ l → Left b l false (some e') false
  | interrupted (e : Exn) (i : ℕ) : .ended .body (.threw e) ∈ l → FirstMatch b e i →
      .ended (.handler i) .cancelled ∈ l → Left b l false (some e) (isTyped b i)

theorem Left.mono {l l' : List (Event Exn)} {completed handled : Bool} {exception : Option Exn}
    (h : Left b l completed exception handled) (hl : ∀ e ∈ l, e ∈ l') :
    Left b l' completed exception handled := by
  cases h with
  | value h => exact .value (hl _ h)
  | cancelled h => exact .cancelled (hl _ h)
  | unmatched e h hno => exact .unmatched e (hl _ h) hno
  | handled e i h hm hr => exact .handled e i (hl _ h) hm (hl _ hr)
  | replaced e e' i h hm hr => exact .replaced e e' i (hl _ h) hm (hl _ hr)
  | interrupted e i h hm hr => exact .interrupted e i (hl _ h) hm (hl _ hr)

/-- What the finally clause leaves. -/
def Settled (b : Block Exn) (s : State Exn) : Prop :=
  (Left b s.history s.completed s.exception s.exceptionHandled ∧
    ∀ e, .ended .cleanup (.threw e) ∉ s.history) ∨
  ∃ e, .ended .cleanup (.threw e) ∈ s.history ∧ s.exception = some e ∧ s.exceptionHandled = false

/-- What the fields hold while the clause is in progress. -/
inductive Place (b : Block Exn) (s : State Exn) : Clause → Prop
  | body : s.stage = .tryStage → s.completed = false → s.exception = none →
      s.exceptionHandled = false → (∀ c, .started c ∈ s.history → c = .body) → Place b s .body
  | handler (e : Exn) (i : ℕ) : s.stage = .catchStage → s.completed = false →
      s.exception = some e → s.exceptionHandled = isTyped b i → .ended .body (.threw e) ∈ s.history →
      FirstMatch b e i → (∀ c, .started c ∈ s.history → c = .body ∨ c = .handler i) →
      Place b s (.handler i)
  | cleanup : s.stage = .finallyStage →
      Left b s.history s.completed s.exception s.exceptionHandled → Place b s .cleanup

/-- Where a run stands. -/
inductive Where (b : Block Exn) (s : State Exn) : Prop
  | idle : s.history = [] → s.checker.state.fresh = true → s.stage = .tryStage →
      s.calling = none → s.task = none → s.completed = false → s.exception = none →
      s.exceptionHandled = false → s.terminated = false → Where b s
  | running (c : Clause) : Running b s c → Place b s c → Where b s
  | finished : s.calling = none → s.task = none → s.terminated = false →
      s.checker.state.fresh = false → s.stage = .finallyStage → .resumed ∈ s.history →
      Obeys (Allowed b) s.history → Settled b s → Where b s
  | terminated : s.terminated = true → .terminated ∈ s.history → Obeys (Allowed b) s.history →
      Where b s

theorem firstMatch_unique {e : Exn} {i j : ℕ} (hi : FirstMatch b e i) (hj : FirstMatch b e j) :
    i = j := by
  obtain ⟨⟨h, hh, hc⟩, hbefore⟩ := hi
  obtain ⟨⟨h', hh', hc'⟩, hbefore'⟩ := hj
  rcases Nat.lt_trichotomy i j with hlt | rfl | hlt
  · rw [hbefore' i hlt h hh] at hc
    cases hc
  · rfl
  · rw [hbefore j hlt h' hh'] at hc'
    cases hc'

/-- The parent is resumed. -/
theorem Between.resumeParent (hb : Between b s) (hstage : s.stage = .finallyStage)
    (hcleanup : b.hasFinally = true → .started .cleanup ∈ s.history) (hs : Settled b s) :
    Where b s.resumeParent := by
  have heq : s.resumeParent = { s with
      parent := false
      suspending := false
      checker := s.checker.resumed.getD s.checker }.record .resumed := if_pos hb.parent
  have hallowed : Allowed b s.history .resumed := ⟨hb.past, hb.waiting, hcleanup⟩
  obtain ⟨c, hc, hfresh⟩ := resumed_of_suspended hb.checker
  rw [heq, hc]
  refine .finished hb.calling hb.task hb.terminated hfresh hstage (by simp [State.record])
    (hb.obeys.append hallowed) ?_
  rcases hs with ⟨hl, hno⟩ | ⟨e, he, hx, hh⟩
  · exact .inl ⟨hl.mono fun e he => List.mem_append_left _ he, fun e => by simp [State.record, hno e]⟩
  · exact .inr ⟨e, List.mem_append_left _ he, hx, hh⟩

/-- The finally clause is started. -/
theorem Between.invokeFinally (hb : Between b s)
    (hl : Left b s.history s.completed s.exception s.exceptionHandled)
    (hnew : .started .cleanup ∉ s.history)
    (hmatch : ∀ e i, .ended .body (.threw e) ∈ s.history → FirstMatch b e i →
      .started (.handler i) ∈ s.history) : Where b (s.invokeFinally b) := by
  have hb' : Between b { s with stage := .finallyStage } :=
    ⟨hb.calling, hb.task, hb.parent, hb.checker, hb.terminated, hb.waiting, hb.started, hb.past,
      hb.obeys⟩
  unfold State.invokeFinally
  by_cases hf : b.hasFinally = true
  · rw [if_pos hf]
    have hrun := hb'.invoke hnew ⟨hb.past, hnew, hb.started, hmatch⟩
    refine .running _ hrun (.cleanup rfl (hl.mono fun e he => ?_))
    exact List.mem_append_left _ he
  · rw [if_neg hf]
    have hstore : { s with stage := Stage.finallyStage }.storeValue =
        { s with stage := Stage.finallyStage } := by simp [State.storeValue]
    rw [hstore]
    refine hb'.resumeParent rfl (fun h => absurd h hf) (.inl ⟨hl, fun e he => ?_⟩)
    exact hnew (started_of_ended hb.obeys he)

/-- The search for a handler. -/
theorem dispatchException_cases (s : State Exn) (e : Exn) (hs : List (Handler Exn)) (i : ℕ)
    (hdrop : b.handlers.drop i = hs)
    (hbefore : ∀ j < i, ∀ h, b.handlers[j]? = some h → h.catches e = false) :
    (∃ k, FirstMatch b e k ∧ s.dispatchException b e hs i =
      { s with exceptionHandled := isTyped b k || s.exceptionHandled }.invoke (.handler k)) ∨
    ((∀ k, ¬ FirstMatch b e k) ∧ s.dispatchException b e hs i = s.invokeFinally b) := by
  induction hs generalizing i with
  | nil =>
    refine .inr ⟨fun k hk => ?_, rfl⟩
    obtain ⟨⟨h, hh, hc⟩, -⟩ := hk
    have hlen : b.handlers.length ≤ i := List.drop_eq_nil_iff.1 hdrop
    have hlt : k < b.handlers.length := (List.getElem?_eq_some_iff.1 hh).1
    rw [hbefore k (by omega) h hh] at hc
    cases hc
  | cons h hs ih =>
    have hget : b.handlers[i]? = some h := by
      have h₀ := congrArg List.head? hdrop
      rwa [List.head?_drop] at h₀
    have hrest : b.handlers.drop (i + 1) = hs := by
      rw [← List.drop_drop, hdrop]
      rfl
    cases h with
    | ellipsis =>
      have htyped : isTyped b i = false := by simp [isTyped, hget]
      refine .inl ⟨i, ⟨⟨_, hget, rfl⟩, hbefore⟩, ?_⟩
      rw [htyped]
      rfl
    | typed p =>
      have htyped : isTyped b i = true := by simp [isTyped, hget]
      by_cases hp : p e = true
      · refine .inl ⟨i, ⟨⟨_, hget, hp⟩, hbefore⟩, ?_⟩
        rw [htyped]
        simp only [State.dispatchException, if_pos hp, Bool.true_or]
      · have hnext := ih (i + 1) hrest fun j hj h hh => by
          rcases Nat.lt_succ_iff_lt_or_eq.1 hj with hlt | rfl
          · exact hbefore j hlt h hh
          · rw [hget] at hh
            cases hh
            show p e = false
            simpa using hp
        simp only [State.dispatchException, if_neg hp]
        exact hnext

/-! ### The end of a clause -/

/-- The fields that say what has become of the body and of the handler. -/
def State.set (s : State Exn) (stage : Stage) (completed : Bool) (exception : Option Exn)
    (handled : Bool) : State Exn :=
  { s with
    stage := stage
    completed := completed
    exception := exception
    exceptionHandled := handled }

theorem Between.set (hb : Between b s) (stage : Stage) (completed : Bool)
    (exception : Option Exn) (handled : Bool) :
    Between b (s.set stage completed exception handled) :=
  ⟨hb.calling, hb.task, hb.parent, hb.checker, hb.terminated, hb.waiting, hb.started, hb.past,
    hb.obeys⟩

/-- A clause that has been cancelled leaves the fields as they are. -/
theorem finish_cancelled (s : State Exn) (c : Clause) :
    { s with calling := none }.finish b c .cancelled =
      ((s.close c .cancelled).set s.stage s.completed s.exception s.exceptionHandled).advance b := by
  obtain ⟨stage, cancel, done, handled, x, task, parent, calling, susp, term, ch, l⟩ := s
  cases task <;> rfl

theorem finish_value (hstage : s.stage ≠ .finallyStage) (c : Clause) :
    { s with calling := none }.finish b c .value =
      ((s.close c .value).set s.stage true none s.exceptionHandled).advance b := by
  obtain ⟨stage, cancel, done, handled, x, task, parent, calling, susp, term, ch, l⟩ := s
  cases stage
  case tryStage => cases task <;> rfl
  case catchStage => cases task <;> rfl
  case finallyStage => exact absurd rfl hstage

theorem finish_value_finally (hstage : s.stage = .finallyStage) (c : Clause) :
    { s with calling := none }.finish b c .value =
      ((s.close c .value).set s.stage s.completed s.exception s.exceptionHandled).advance b := by
  obtain ⟨stage, cancel, done, handled, x, task, parent, calling, susp, term, ch, l⟩ := s
  cases hstage
  cases task <;> rfl

theorem finish_threw (ht : s.terminated = false) {c : Clause} {e : Exn}
    (hx : ¬ (s.stage = .finallyStage ∧ s.exception.isSome = true)) :
    { s with calling := none }.finish b c (.threw e) =
      ((s.close c (.threw e)).set s.stage s.completed (some e) false).advance b := by
  obtain ⟨stage, cancel, done, handled, x, task, parent, calling, susp, term, ch, l⟩ := s
  cases ht
  cases stage
  case tryStage => cases task <;> rfl
  case catchStage => cases task <;> rfl
  case finallyStage =>
    cases x with
    | none => cases task <;> rfl
    | some e' => exact absurd ⟨rfl, rfl⟩ hx

/-- Two exceptions in flight. -/
theorem finish_terminates {c : Clause} {e : Exn}
    (hx : s.stage = .finallyStage ∧ s.exception.isSome = true) :
    { s with calling := none }.finish b c (.threw e) =
      { s with
        calling := none
        terminated := true
        history := s.history ++ [.ended c (.threw e)] ++ [.terminated] } := by
  obtain ⟨stage, cancel, done, handled, x, task, parent, calling, susp, term, ch, l⟩ := s
  obtain ⟨hstage, hx⟩ := hx
  cases hstage
  cases x with
  | none => cases hx
  | some e' => rfl

/-- The search for a handler after the body. -/
theorem Between.dispatchException (hb : Between b s) {e : Exn}
    (honly : ∀ c, .started c ∈ s.history → c = .body) (he : .ended .body (.threw e) ∈ s.history) :
    Where b ((s.set .catchStage false (some e) false).dispatchException b e b.handlers 0) := by
  have hno : ∀ {c : Clause}, c ≠ .body → .started c ∉ s.history := fun hc h => hc (honly _ h)
  rcases dispatchException_cases (b := b) (s.set .catchStage false (some e) false) e b.handlers 0
      rfl (fun j hj => absurd hj (Nat.not_lt_zero j)) with ⟨k, hk, heq⟩ | ⟨hnone, heq⟩
  · have hb' := hb.set .catchStage false (some e) (isTyped b k)
    have hallowed : Allowed b s.history (.started (.handler k)) :=
      ⟨hb.past, fun j => hno (by simp), e, he, hk⟩
    have hset : (s.set .catchStage false (some e) false).exceptionHandled = false := rfl
    rw [heq, hset, Bool.or_false]
    refine .running _ (hb'.invoke (hno (by simp)) hallowed) (.handler e k rfl rfl rfl rfl
      (List.mem_append_left _ he) hk fun c hc => ?_)
    rcases List.mem_append.1 hc with hold | hlast
    · exact .inl (honly c hold)
    · cases List.mem_singleton.1 hlast
      exact .inr rfl
  · rw [heq]
    refine (hb.set .catchStage false (some e) false).invokeFinally (.unmatched e he hnone)
      (hno (by simp)) fun e' i he' hm => ?_
    cases ended_unique hb.obeys he he'
    exact absurd hm (hnone i)

/-- `continuation()` after the body. -/
theorem where_of_body (hr : Running b s .body) 
    (hstage : s.stage = .tryStage) (hdone : s.completed = false) (hx : s.exception = none)
    (hh : s.exceptionHandled = false) (honly : ∀ c, .started c ∈ s.history → c = .body)
    {r : Result Exn} (hc : r = .cancelled → .asked .body ∈ s.history) :
    Where b ({ s with calling := none }.finish b .body r) := by
  obtain ⟨hb, hended, -, hnew⟩ := hr.close hc
  have honly' : ∀ c, .started c ∈ (s.close .body r).history → c = .body := by
    intro c h
    rcases hnew _ h with h | h | h
    · exact honly c h
    · cases h
    · cases h
  have hcleanup : .started .cleanup ∉ (s.close .body r).history := fun h => by
    cases honly' _ h
  cases r with
  | value =>
    rw [finish_value (by simp [hstage]), hstage, hh]
    refine (hb.set .tryStage true none false).invokeFinally (.value hended) hcleanup fun e i he => ?_
    cases ended_unique hb.obeys hended he
  | threw e =>
    rw [finish_threw hr.terminated (by simp [hstage]), hstage, hdone]
    exact hb.dispatchException honly' hended
  | cancelled =>
    rw [finish_cancelled, hstage, hdone, hx, hh]
    refine (hb.set .tryStage false none false).invokeFinally (.cancelled hended) hcleanup
      fun e i he => ?_
    cases ended_unique hb.obeys hended he

/-- `continuation()` after a handler. -/
theorem where_of_handler {e : Exn} {i : ℕ} (hr : Running b s (.handler i)) 
    (hstage : s.stage = .catchStage) (hdone : s.completed = false) (hx : s.exception = some e)
    (hh : s.exceptionHandled = isTyped b i) (hbody : .ended .body (.threw e) ∈ s.history)
    (hm : FirstMatch b e i) (honly : ∀ c, .started c ∈ s.history → c = .body ∨ c = .handler i)
    {r : Result Exn} (hc : r = .cancelled → .asked (.handler i) ∈ s.history) :
    Where b ({ s with calling := none }.finish b (.handler i) r) := by
  obtain ⟨hb, hended, hold, hnew⟩ := hr.close hc
  have hbody' := hold _ hbody
  have hcleanup : .started .cleanup ∉ (s.close (.handler i) r).history := by
    intro h
    rcases hnew _ h with h | h | h
    · rcases honly _ h with h | h <;> cases h
    · cases h
    · cases h
  have hstarted : ∀ e' j, .ended .body (.threw e') ∈ (s.close (.handler i) r).history →
      FirstMatch b e' j → .started (.handler j) ∈ (s.close (.handler i) r).history := by
    intro e' j he' hj
    cases ended_unique hb.obeys hbody' he'
    cases firstMatch_unique hm hj
    exact hold _ hr.started
  cases r with
  | value =>
    rw [finish_value (by simp [hstage]), hstage, hh]
    exact (hb.set .catchStage true none (isTyped b i)).invokeFinally
      (.handled e i hbody' hm hended) hcleanup hstarted
  | threw e' =>
    rw [finish_threw hr.terminated (by simp [hstage]), hstage, hdone]
    exact (hb.set .catchStage false (some e') false).invokeFinally
      (.replaced e e' i hbody' hm hended) hcleanup hstarted
  | cancelled =>
    rw [finish_cancelled, hstage, hdone, hx, hh]
    exact (hb.set .catchStage false (some e) (isTyped b i)).invokeFinally
      (.interrupted e i hbody' hm hended) hcleanup hstarted

/-- `continuation()` after the finally clause. -/
theorem where_of_cleanup (hr : Running b s .cleanup) 
    (hstage : s.stage = .finallyStage)
    (hl : Left b s.history s.completed s.exception s.exceptionHandled)
    {r : Result Exn} (hc : r = .cancelled → .asked .cleanup ∈ s.history) :
    Where b ({ s with calling := none }.finish b .cleanup r) := by
  obtain ⟨hb, hended, hold, -⟩ := hr.close hc
  have hstarted := hold _ hr.started
  have hleft := hl.mono hold
  cases r with
  | value =>
    rw [finish_value_finally hstage]
    rw [hstage]
    refine (hb.set .finallyStage s.completed s.exception s.exceptionHandled).resumeParent rfl
      (fun _ => hstarted) (.inl ⟨hleft, fun e he => ?_⟩)
    cases ended_unique hb.obeys hended he
  | cancelled =>
    rw [finish_cancelled]
    rw [hstage]
    refine (hb.set .finallyStage s.completed s.exception s.exceptionHandled).resumeParent rfl
      (fun _ => hstarted) (.inl ⟨hleft, fun e he => ?_⟩)
    cases ended_unique hb.obeys hended he
  | threw e =>
    by_cases hx : s.exception.isSome = true
    · rw [finish_terminates ⟨hstage, hx⟩]
      have hallowed : Allowed b s.history (.ended .cleanup (.threw e)) :=
        ⟨hr.started, hr.notEnded, fun h => by cases h⟩
      refine .terminated rfl (by simp) ((hr.obeys.append hallowed).append ?_)
      exact ⟨e, List.mem_append_right _ (List.mem_singleton_self _)⟩
    · rw [finish_threw hr.terminated (fun h => hx h.2)]
      rw [hstage]
      exact (hb.set .finallyStage s.completed (some e) false).resumeParent rfl
        (fun _ => hstarted) (.inr ⟨e, hended, rfl, rfl⟩)

theorem where_of_finish {c : Clause} (hr : Running b s c) (hp : Place b s c)
    {r : Result Exn} (hc : r = .cancelled → .asked c ∈ s.history) :
    Where b ({ s with calling := none }.finish b c r) := by
  cases hp with
  | body hstage hdone hx hh honly => exact where_of_body hr hstage hdone hx hh honly hc
  | handler e i hstage hdone hx hh hbody hm honly =>
    exact where_of_handler hr hstage hdone hx hh hbody hm honly hc
  | cleanup hstage hl => exact where_of_cleanup hr hstage hl hc

end Corral.TryBlock
