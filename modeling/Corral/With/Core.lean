import Corral.With.Steps

/-!
# `with()`: what holds in every run

`Core` relates the flags of the stages to what has become of them, and to the calls in progress; no
assumption on the stages is needed.

* `Frame.opens`: the calls of the one activity that makes the second stage and begins it;
* `Nested`: how `then()` stands on the stack;
* `Flags`, `Calls`: what is known of the flags, and of the calls in progress.
-/

namespace Corral.With

open ActionMachine AwaiterStateChecker

variable {Err : Type*} {s t : State Err}

def Frame.isThen : Frame Err → Bool
  | .thenFn _ => true
  | _ => false

/-- The calls of the one activity that makes the second stage and begins it. -/
def Frame.opens : Frame Err → Bool
  | .thenFn _ => true
  | .beginEarlyCancel .second _ => true
  | .beginEarlyCancel .first both => both
  | .suspend .first both => both
  | .cancelStage .first _ .thenThrew => true
  | .cancelStage .second _ (.markStarted _) => true
  | .cancelStage .second _ (.onStageDone both) => both
  | .mustResume .first both => both
  | .destroyThrown _ .first both => both
  | _ => false

/-- The calls that occur: which stage each caller of `cancelStage()` cancels, and that only the first
stage is begun together with the second one. -/
def Frame.proper : Frame Err → Bool
  | .beginEarlyCancel w both => !both || w == .first
  | .suspend w both => !both || w == .first
  | .cancelStage w _ (.onStageDone both) => !both || w == .second
  | .cancelStage w _ (.doCancelSecond _) => w == .second
  | .cancelStage w _ (.doCancelFirst _ _) => w == .first
  | .cancelStage w _ .thenThrew => w == .first
  | .cancelStage w _ (.markStarted _) => w == .second
  | .mustResume w both => !both || w == .first
  | .result both => !both
  | .destroySecond stage both => !both && !stage.isFirst && !stage.isSecond
  | .destroyThrown _ w both => !both || w == .first
  | _ => true

/-- The calls that are made only after the parent has been suspended. -/
def Frame.late : Frame Err → Bool
  | .beginEarlyCancel .first _ => true
  | .suspend .first _ => true
  | .cancelStage .second _ (.onStageDone _) => true
  | .mustResume .first _ => true
  | .destroyThrown _ .first _ => true
  | _ => false

/-- The calls that ask the stage `w` to cancel itself. -/
def Frame.asks (w : Which) : Frame Err → Bool
  | .beginEarlyCancel w' _ => w' == w
  | .cancelStage w' _ _ => w' == w
  | _ => false

/-- The calls on behalf of `await_cancel()` or `await_early_cancel()` of the scope. -/
def Frame.isDoCancel : Frame Err → Bool
  | .cancelStage _ _ (.doCancelSecond _) => true
  | .cancelStage _ _ (.doCancelFirst _ _) => true
  | _ => false

/-- The calls on behalf of `await_early_cancel()` of the scope. -/
def Frame.isEarly : Frame Err → Bool
  | .cancelStage _ _ (.doCancelSecond early) => early
  | .cancelStage _ _ (.doCancelFirst early _) => early
  | _ => false

/-- The calls that are made while `then()` runs. -/
def Frame.overThen : Frame Err → Bool
  | .cancelStage .first _ (.doCancelFirst _ _) => true
  | .mustResume .first _ => true
  | _ => false

/-- The destruction of the second stage after `await_suspend()` of the stage `w` has thrown. -/
def Frame.isThrown (w : Which) : Frame Err → Bool
  | .destroyThrown _ w' _ => w' == w
  | _ => false

/-- The destruction of the second stage. -/
def Frame.destroys : Frame Err → Bool
  | .destroySecond _ _ => true
  | .destroyThrown _ _ _ => true
  | _ => false

/-- What a call in progress says about the stages. -/
def Frame.holds (s : State Err) : Frame Err → Prop
  | .cancelStage .second _ (.onStageDone _) => s.first.done = true
  | .cancelStage .first _ (.onStageDone _) => s.second.done = true
  | .cancelStage .first _ .thenThrew => s.second.life = .new
  | .mustResume .first _ => s.first.life = .ended
  | .mustResume .second _ => s.second.life = .ended
  | .result _ => s.second.life = .ended
  | .destroySecond _ _ => s.second.life = .ended
  | _ => True

/-- What the calls in progress say stays true. -/
theorem Frame.holds_of {f : Frame Err} (h : f.holds s) (h₁ : s.first.done = true → t.first.done = true)
    (h₂ : s.second.done = true → t.second.done = true)
    (h₃ : f.opens = true → s.second.life = .new → t.second.life = .new)
    (h₄ : s.first.life = .ended → t.first.life = .ended)
    (h₅ : s.second.life = .ended → t.second.life = .ended) : f.holds t := by
  cases f with
  | cancelStage w early caller =>
    cases w <;> cases caller <;> first | exact h₁ h | exact h₂ h | exact h₃ rfl h | trivial
  | mustResume w both => cases w <;> first | exact h₄ h | exact h₅ h
  | result both => exact h₅ h
  | destroySecond stage both => exact h₅ h
  | _ => trivial

/-- Only a cancellation of the first stage on behalf of the parent, or its end, calls it while
`then()` runs, and `then()` is called only while the first stage is not being cancelled. -/
def Nested : List (Frame Err) → Prop
  | [] => True
  | f :: below => ((∃ g ∈ below, g.isThen = true) → f.overThen = true) ∧
      (f.isThen = true → ∀ g ∈ below, g.asks .first = false) ∧ Nested below

/-- The flags of a stage agree with what has become of it. -/
structure StageOk (st : StageState) : Prop where
  ended : st.life = .ended → st.done = true
  done : st.done = true → st.life = .ended ∨ st.life = .new
  running : st.life = .running → st.started = true
  started : st.started = true → st.life = .running ∨ st.life = .threw ∨ st.life = .ended
  built : st.built = true → st.life ≠ .new
  asked : st.asked = true → st.cancelling = true ∧ st.started = true
  cancelling : st.cancelling = true → st.life ≠ .new

/-- The states of the checker before the parent is suspended. -/
def before : AwaiterStateChecker.State → Bool
  | .initial => true
  | .notReady => true
  | .initialCxlPend => true
  | .cancelPending => true
  | .readyImmediately => true
  | _ => false

/-- The states of the checker in which the parent has been asked to cancel, and is not over. -/
def askedToCancel : AwaiterStateChecker.State → Bool
  | .initialCxlPend => true
  | .cancelPending => true
  | .cancelling => true
  | .readyAfterCancel => true
  | _ => false

/-- The states of the checker in which the parent has not been asked to cancel yet. -/
def notAsked : AwaiterStateChecker.State → Bool
  | .initial => true
  | .notReady => true
  | .readyImmediately => true
  | .running => true
  | _ => false

/-- What is known of the flags. -/
structure Flags (s : State Err) : Prop where
  built : s.second.built = s.stage.isSecond
  first : StageOk s.first
  firstDone : s.first.done = true → s.first.life = .ended
  second : StageOk s.second
  unparented : s.parent = false → s.first.started = false
  parented : s.parent = true → s.first.life ≠ .new ∧ before s.checker.state = false
  waiting : s.parent = false → s.checker.state.suspended = false
  asked : askedToCancel s.checker.state = true → s.cancelling = true
  executor : s.stage.isFirst = true ∨ s.parent = true → s.checker.hasExecutor = true
  prepared : s.checker.hasExecutor = true → s.first.life ≠ .new

/-- What is known of the calls in progress. -/
structure Calls (s : State Err) : Prop where
  unsignalled : s.signalled = false →
    s.second.life = .new ∧ s.second.done = false ∧ ∀ f ∈ s.stack, f.opens = false
  thenFn : ∀ f ∈ s.stack, f.isThen = true → s.second.life = .new ∧ s.second.done = false
  proper : ∀ f ∈ s.stack, f.proper = true
  once : s.stack.countP Frame.opens ≤ 1
  nested : Nested s.stack
  asksFirst : ∀ f ∈ s.stack, f.asks .first = true → s.first.cancelling = true
  asksSecond : ∀ f ∈ s.stack, f.asks .second = true → s.second.cancelling = true
  askOnce : ∀ w, s.stack.countP (Frame.asks w) ≤ 1
  requested : ∀ f ∈ s.stack, f.isDoCancel = true → s.cancelling = true
  late : ∀ f ∈ s.stack, f.late = true → s.parent = true
  construct : ∀ f ∈ s.stack, f.isConstruct = true → s.first.life = .new
  constructOnce : s.stack.countP Frame.isConstruct ≤ 1
  gone : ∀ f ∈ s.stack, f.destroys = true → s.second.life ≠ .new ∧ s.second.built = false
  holds : ∀ f ∈ s.stack, f.holds s

/-- In addition, a stage whose `await_suspend()` has thrown waits for the destruction of the second
one. -/
structure Core (s : State Err) : Prop extends Flags s, Calls s where
  threwFirst : s.stack.countP (Frame.isThrown .first) = if s.first.life = .threw then 1 else 0
  threwSecond : s.stack.countP (Frame.isThrown .second) = if s.second.life = .threw then 1 else 0

theorem Calls.asks (hc : Calls s) (w : Which) {f : Frame Err} (hf : f ∈ s.stack)
    (ha : f.asks w = true) : (s.get w).cancelling = true := by
  cases w with
  | first => exact hc.asksFirst f hf ha
  | second => exact hc.asksSecond f hf ha

theorem core_init : Core (State.init : State Err) := by
  constructor
  · constructor <;> simp [State.init, StageState.init, Stage.isFirst, Stage.isSecond, Checker.init,
      before, askedToCancel, State.suspended]
    · constructor <;> simp
    · constructor <;> simp
  · constructor <;> simp [State.init, StageState.init, Frame.isThen, Frame.proper, Frame.opens,
      Frame.asks, Frame.isDoCancel, Frame.late, Frame.isConstruct, Frame.destroys, Frame.holds, Nested]
  · rfl
  · rfl

/-! ### Calls are made, and return -/

theorem Calls.pop {f : Frame Err} {below : List (Frame Err)} (hc : Calls s)
    (hst : s.stack = f :: below) : Calls { s with stack := below } := by
  have hmem : ∀ g ∈ below, g ∈ s.stack := fun g hg => hst ▸ List.mem_cons_of_mem f hg
  have hcount : ∀ p : Frame Err → Bool, s.stack.countP p ≤ 1 → below.countP p ≤ 1 := by
    intro p hle
    rw [hst, List.countP_cons] at hle
    omega
  refine ⟨fun h => ?_, fun g hg => hc.thenFn g (hmem g hg), fun g hg => hc.proper g (hmem g hg),
    hcount _ hc.once, ?_, fun g hg => hc.asksFirst g (hmem g hg),
    fun g hg => hc.asksSecond g (hmem g hg), fun w => hcount _ (hc.askOnce w),
    fun g hg => hc.requested g (hmem g hg), fun g hg => hc.late g (hmem g hg),
    fun g hg => hc.construct g (hmem g hg), hcount _ hc.constructOnce,
    fun g hg => hc.gone g (hmem g hg), fun g hg => hc.holds g (hmem g hg)⟩
  · obtain ⟨h₁, h₂, h₃⟩ := hc.unsignalled h
    exact ⟨h₁, h₂, fun g hg => h₃ g (hmem g hg)⟩
  · have hn := hc.nested
    rw [hst] at hn
    exact hn.2.2

/-- A call may be made: it asks a stage to cancel itself only if the stage says so, and belongs to the
activity that opens the second stage only if there is no other one. -/
structure MayEnter (s : State Err) (f : Frame Err) : Prop where
  isThen : f.isThen = false
  isConstruct : f.isConstruct = false
  proper : f.proper = true
  opens : f.opens = true → s.signalled = true ∧ s.stack.countP Frame.opens = 0
  overThen : (∃ g ∈ s.stack, g.isThen = true) → f.overThen = true
  asks : ∀ w, f.asks w = true → (s.get w).cancelling = true
  askOnce : ∀ w, f.asks w = true → s.stack.countP (Frame.asks w) = 0
  requested : f.isDoCancel = true → s.cancelling = true
  late : f.late = true → s.parent = true
  gone : f.destroys = true → s.second.life ≠ .new ∧ s.second.built = false
  holds : f.holds s

theorem countP_cons_le {f : Frame Err} {l : List (Frame Err)} {p : Frame Err → Bool}
    (hle : l.countP p ≤ 1) (h : p f = true → l.countP p = 0) : (f :: l).countP p ≤ 1 := by
  rw [List.countP_cons]
  split_ifs with hf
  · have hzero := h hf
    omega
  · exact hle

theorem Calls.enter {f : Frame Err} (hc : Calls s) (hf : MayEnter s f) : Calls (s.enter f) := by
  have hthen : ¬ f.isThen = true := by simp [hf.isThen]
  have hcon : ¬ f.isConstruct = true := by simp [hf.isConstruct]
  refine ⟨fun h => ?_, List.forall_mem_cons.2 ⟨fun h => absurd h hthen, hc.thenFn⟩,
    List.forall_mem_cons.2 ⟨hf.proper, hc.proper⟩, countP_cons_le hc.once fun h => (hf.opens h).2,
    ⟨hf.overThen, fun h => absurd h hthen, hc.nested⟩,
    List.forall_mem_cons.2 ⟨hf.asks .first, hc.asksFirst⟩,
    List.forall_mem_cons.2 ⟨hf.asks .second, hc.asksSecond⟩,
    fun w => countP_cons_le (hc.askOnce w) (hf.askOnce w),
    List.forall_mem_cons.2 ⟨hf.requested, hc.requested⟩, List.forall_mem_cons.2 ⟨hf.late, hc.late⟩,
    List.forall_mem_cons.2 ⟨fun h => absurd h hcon, hc.construct⟩,
    countP_cons_le hc.constructOnce fun h => absurd h hcon,
    List.forall_mem_cons.2 ⟨hf.gone, hc.gone⟩, List.forall_mem_cons.2 ⟨hf.holds, hc.holds⟩⟩
  obtain ⟨h₁, h₂, h₃⟩ := hc.unsignalled h
  refine ⟨h₁, h₂, List.forall_mem_cons.2 ⟨?_, h₃⟩⟩
  by_contra hop
  have hsig := (hf.opens (by simpa using hop)).1
  cases (show s.signalled = false from h).symm.trans hsig

/-- A call returns that is not the destruction of the second stage after an exception. -/
theorem Core.pop {f : Frame Err} {below : List (Frame Err)} (hc : Core s) (hst : s.stack = f :: below)
    (hf : ∀ w, f.isThrown w = false) : Core { s with stack := below } := by
  have hcount : ∀ w, below.countP (Frame.isThrown w) = s.stack.countP (Frame.isThrown w) := by
    intro w
    rw [hst, List.countP_cons_of_neg (by simp [hf w])]
  exact { hc with
    toCalls := hc.toCalls.pop hst
    threwFirst := (hcount .first).trans hc.threwFirst
    threwSecond := (hcount .second).trans hc.threwSecond }

/-- A call is made that is not the destruction of the second stage after an exception. -/
theorem Core.enter {f : Frame Err} (hc : Core s) (hf : MayEnter s f)
    (hth : ∀ w, f.isThrown w = false) : Core (s.enter f) := by
  have hcount : ∀ w, (f :: s.stack).countP (Frame.isThrown w) =
      s.stack.countP (Frame.isThrown w) := by
    intro w
    rw [List.countP_cons_of_neg (by simp [hth w])]
  exact { hc with
    toCalls := hc.toCalls.enter hf
    threwFirst := (hcount .first).trans hc.threwFirst
    threwSecond := (hcount .second).trans hc.threwSecond }

/-! ### The stages -/

theorem StageOk.finish {st : StageState} (h : StageOk st) {m built : Bool} : StageOk { st with
      life := .ended, done := true, mustNotResume := m, built := built } where
  ended := fun _ => rfl
  done := fun _ => .inl rfl
  running := fun h => by cases h
  started := fun _ => .inr (.inr rfl)
  built := fun _ => by simp
  asked := h.asked
  cancelling := fun _ => by simp

theorem StageOk.ask {st : StageState} (h : StageOk st) (hb : st.life ≠ .new) {a : Bool}
    (ha : a = true → st.started = true) :
    StageOk { st with cancelling := true, asked := a } where
  ended := h.ended
  done := h.done
  running := h.running
  started := h.started
  built := h.built
  asked := fun h' => ⟨rfl, ha h'⟩
  cancelling := fun _ => hb

theorem StageOk.begin {st : StageState} (h : StageOk st) (hidle : st.life = .idle) :
    StageOk { st with started := true, life := .running } where
  ended := fun h' => by cases h'
  done := fun h' => by
    have := h.done h'
    simp [hidle] at this
  running := fun _ => rfl
  started := fun _ => .inl rfl
  built := fun _ => by simp
  asked := fun h' => ⟨(h.asked h').1, rfl⟩
  cancelling := fun _ => by simp

/-- `await_suspend()` has thrown. -/
theorem StageOk.fail {st : StageState} (h : StageOk st) (hrun : st.life = .running) {built : Bool} :
    StageOk { st with life := .threw, built := built } where
  ended := fun h' => by cases h'
  done := fun h' => by
    have := h.done h'
    simp [hrun] at this
  running := fun h' => by cases h'
  started := fun _ => .inr (.inl rfl)
  built := fun _ => by simp
  asked := h.asked
  cancelling := fun _ => by simp

theorem Flags.finish {w : Which} (hc : Flags s) : Flags (s.finish w) := by
  cases w with
  | first => exact { hc with
      first := hc.first.finish
      firstDone := fun _ => rfl
      parented := fun hp => ⟨by simp [State.finish], (hc.parented hp).2⟩
      prepared := fun _ => by simp [State.finish] }
  | second => exact { hc with second := hc.second.finish }

theorem Calls.finish {w : Which} (hc : Calls s) (hal : (s.get w).life ≠ .new) :
    Calls (s.finish w) := by
  cases w with
  | first => exact { hc with
      construct := fun f hf hcon => absurd (hc.construct f hf hcon) hal
      holds := fun f hf =>
        Frame.holds_of (hc.holds f hf) (fun _ => rfl) id (fun _ => id) (fun _ => rfl) id }
  | second => exact { hc with
      unsignalled := fun hsig => absurd (hc.unsignalled hsig).1 hal
      thenFn := fun f hf hthen => absurd (hc.thenFn f hf hthen).1 hal
      gone := fun f hf hd => ⟨by simp [State.finish], (hc.gone f hf hd).2⟩
      holds := fun f hf =>
        Frame.holds_of (hc.holds f hf) id (fun _ => rfl) (fun _ h => absurd h hal) id fun _ => rfl }

theorem Core.finish {w : Which} (hc : Core s) (hal : (s.get w).life ≠ .new)
    (hth : (s.get w).life ≠ .threw) : Core (s.finish w) := by
  refine { hc.toFlags.finish, hc.toCalls.finish hal with threwFirst := ?_, threwSecond := ?_ }
  · cases w with
    | first => exact hc.threwFirst.trans (if_neg hth)
    | second => exact hc.threwFirst
  · cases w with
    | first => exact hc.threwSecond
    | second => exact hc.threwSecond.trans (if_neg hth)

/-- What resuming the parent does to its checker. -/
theorem resumed_getD (c : Checker) :
    (c.resumed.getD c).state = c.state ∧ c.state.suspended = false ∨
    c.state = .running ∧ (c.resumed.getD c).state = .ready ∨
    c.state = .cancelling ∧ (c.resumed.getD c).state = .readyAfterCancel := by
  obtain ⟨st, ex⟩ := c
  cases st <;> first
    | exact .inl ⟨rfl, rfl⟩ | exact .inr (.inl ⟨rfl, rfl⟩) | exact .inr (.inr ⟨rfl, rfl⟩)

theorem hasExecutor_resumed (c : Checker) :
    (c.resumed.getD c).hasExecutor = c.hasExecutor := by
  obtain ⟨st, ex⟩ := c
  cases st <;> rfl

theorem Core.resumeParent (hc : Core s) : Core s.resumeParent := by
  unfold State.resumeParent
  split_ifs with hp
  · refine { hc with
      parented := fun _ => ⟨(hc.parented hp).1, ?_⟩
      waiting := fun h => absurd (h.symm.trans hp) (by simp)
      asked := ?_
      executor := fun h => (hasExecutor_resumed _).trans (hc.executor h)
      prepared := fun h => hc.prepared ((hasExecutor_resumed _).symm.trans h) }
    · rcases resumed_getD s.checker with ⟨h, -⟩ | ⟨-, h⟩ | ⟨-, h⟩
      · rw [h]
        exact (hc.parented hp).2
      · rw [h]
        rfl
      · rw [h]
        rfl
    · intro ha
      rcases resumed_getD s.checker with ⟨h, -⟩ | ⟨-, h⟩ | ⟨h', h⟩
      · rw [h] at ha
        exact hc.asked ha
      · rw [h] at ha
        cases ha
      · exact hc.asked (by rw [h']; rfl)
  · exact hc

@[simp] theorem stack_resumeParent (s : State Err) : s.resumeParent.stack = s.stack := by
  unfold State.resumeParent
  split_ifs <;> rfl

@[simp] theorem signalled_resumeParent (s : State Err) : s.resumeParent.signalled = s.signalled := by
  unfold State.resumeParent
  split_ifs <;> rfl

@[simp] theorem get_resumeParent (w : Which) : s.resumeParent.get w = s.get w := by
  unfold State.resumeParent
  split_ifs <;> cases w <;> rfl

theorem isThen_of_opens {f : Frame Err} (h : f.opens = false) : f.isThen = false := by
  cases f with
  | thenFn => cases h
  | _ => rfl

/-- Nothing that opens the second stage is in progress, so `then()` is not. -/
theorem not_then_of_countP {l : List (Frame Err)} (h : l.countP Frame.opens = 0) :
    ∀ f ∈ l, f.isThen = false :=
  fun f hf => isThen_of_opens (by simpa using List.countP_eq_zero.1 h f hf)

theorem Core.signalled_of_second (hc : Core s) (h : s.second.life ≠ .new) : s.signalled = true := by
  by_contra hno
  exact h (hc.unsignalled (by simpa using hno)).1

/-- Once the second stage has been made, `then()` is not in progress. -/
theorem Core.not_then (hc : Core s) (h : s.second.life ≠ .new) : ∀ f ∈ s.stack, f.isThen = false := by
  intro f hf
  by_contra hthen
  exact h (hc.thenFn f hf (by simpa using hthen)).1

theorem Core.not_new_of_built {w : Which} (hc : Core s) (h : (s.get w).built = true) :
    (s.get w).life ≠ .new := by
  cases w with
  | first => exact hc.first.built h
  | second => exact hc.second.built h

theorem Core.countP_isThrown (hc : Core s) (w : Which) :
    s.stack.countP (Frame.isThrown w) = if (s.get w).life = .threw then 1 else 0 := by
  cases w with
  | first => exact hc.threwFirst
  | second => exact hc.threwSecond

theorem Core.mem_of_threw {w : Which} (hc : Core s) (h : (s.get w).life = .threw) :
    ∃ err both, .destroyThrown err w both ∈ s.stack := by
  have hcount := hc.countP_isThrown w
  rw [if_pos h] at hcount
  have hpos : 0 < s.stack.countP (Frame.isThrown w) := by omega
  obtain ⟨f, hf, hthrown⟩ := List.countP_pos_iff.1 hpos
  cases f with
  | destroyThrown err w' both =>
    obtain rfl : w' = w := by simpa [Frame.isThrown] using hthrown
    exact ⟨err, both, hf⟩
  | _ => cases hthrown

theorem Core.threw_of_mem {err : Err} {w : Which} {both : Bool} (hc : Core s)
    (h : .destroyThrown err w both ∈ s.stack) : (s.get w).life = .threw := by
  by_contra hl
  have hcount := hc.countP_isThrown w
  rw [if_neg hl] at hcount
  exact List.countP_eq_zero.1 hcount _ h (by simp [Frame.isThrown])

/-- The second stage has thrown out of `await_suspend()`, and is being destroyed. -/
theorem Core.not_built_of_threw (hc : Core s) (h : s.second.life = .threw) :
    s.second.built = false := by
  obtain ⟨err, both, hf⟩ := hc.mem_of_threw (w := .second) h
  exact (hc.gone _ hf rfl).2

theorem Core.mark {w : Which} {a : Bool} (hc : Core s) (hl : (s.get w).life ≠ .new)
    (ha : a = true → (s.get w).started = true) :
    Core (s.set w { s.get w with cancelling := true, asked := a }) := by
  cases w with
  | first => exact { hc with first := hc.first.ask hl ha, asksFirst := fun _ _ _ => rfl }
  | second => exact { hc with second := hc.second.ask hl ha, asksSecond := fun _ _ _ => rfl }

/-- A stage that has not been asked yet is not being asked. -/
theorem Core.not_asks {w : Which} (hc : Core s) (h : (s.get w).cancelling = false) :
    s.stack.countP (Frame.asks w) = 0 := by
  rw [List.countP_eq_zero]
  intro f hf ha
  cases h.symm.trans (hc.asks w hf ha)

/-- A stage is asked to cancel itself, by a call that only asks this stage. -/
theorem Core.enterAsk {w : Which} {a : Bool} {f : Frame Err} (hc : Core s)
    (hl : (s.get w).life ≠ .new) (ha : a = true → (s.get w).started = true)
    (hno : (s.get w).cancelling = false) (hasks : ∀ w', f.asks w' = true → w = w')
    (hthen : f.isThen = false) (hcon : f.isConstruct = false) (hdes : f.destroys = false)
    (hth : ∀ w, f.isThrown w = false) (hprop : f.proper = true)
    (hop : f.opens = true → s.signalled = true ∧ s.stack.countP Frame.opens = 0)
    (hover : (∃ g ∈ s.stack, g.isThen = true) → f.overThen = true)
    (hreq : f.isDoCancel = true → s.cancelling = true)
    (hlate : f.late = true → s.parent = true) (hf : f.holds s) :
    Core ((s.set w { s.get w with cancelling := true, asked := a }).enter f) := by
  refine (hc.mark hl ha).enter ⟨hthen, hcon, hprop, ?_, ?_, fun w' h => ?_, fun w' h => ?_, ?_, ?_,
    fun h => absurd (hdes.symm.trans h) (by simp), ?_⟩ hth
  · cases w <;> exact hop
  · cases w <;> exact hover
  · cases hasks w' h
    rw [get_set]
  · cases hasks w' h
    have hzero := hc.not_asks hno
    cases w <;> exact hzero
  · cases w <;> exact hreq
  · cases w <;> exact hlate
  · cases w <;> exact Frame.holds_of hf id id (fun _ => id) id id

/-- A stage is asked to cancel itself in `cancelStage()`. -/
theorem Core.ask {caller : Caller} (hc : Core s) (w : Which) (hb : (s.get w).built = true)
    (hno : (s.get w).cancelling = false)
    (hprop : (Frame.cancelStage w (!(s.get w).started) caller : Frame Err).proper = true)
    (hop : (Frame.cancelStage w (!(s.get w).started) caller : Frame Err).opens = true →
      s.signalled = true ∧ s.stack.countP Frame.opens = 0)
    (hover : (∃ g ∈ s.stack, g.isThen = true) →
      (Frame.cancelStage w (!(s.get w).started) caller : Frame Err).overThen = true)
    (hreq : (Frame.cancelStage w (!(s.get w).started) caller : Frame Err).isDoCancel = true →
      s.cancelling = true)
    (hlate : (Frame.cancelStage w (!(s.get w).started) caller : Frame Err).late = true →
      s.parent = true)
    (hf : (Frame.cancelStage w (!(s.get w).started) caller : Frame Err).holds s) :
    Core ((s.set w { s.get w with cancelling := true, asked := (s.get w).started }).enter
      (.cancelStage w (!(s.get w).started) caller)) :=
  hc.enterAsk (hc.not_new_of_built hb) id hno (fun w' h => by simpa [Frame.asks] using h) rfl rfl rfl
    (fun _ => rfl) hprop hop hover hreq hlate hf

/-! ### `onStageDone()` -/

/-- What is known when a stage ends: the parent is suspended if it is the first one, and if the
second stage is to be begun next, there is no other activity that opens it. -/
structure MayEnd (s : State Err) (w : Which) (both : Bool) : Prop where
  which : both = true → w = .first
  parent : w = .first → s.parent = true
  one : both = true → s.signalled = true ∧ s.stack.countP Frame.opens = 0

theorem MayEnd.congr {w : Which} {both : Bool} (h : MayEnd s w both) (hp : t.parent = s.parent)
    (hsig : t.signalled = s.signalled) (hst : t.stack = s.stack) : MayEnd t w both where
  which := h.which
  parent := fun hw => hp.trans (h.parent hw)
  one := fun hboth => by
    rw [hsig, hst]
    exact h.one hboth

theorem MayEnd.second : MayEnd s .second false where
  which := fun h => by cases h
  parent := fun h => by cases h
  one := fun h => by cases h

theorem MayEnd.finish {w w' : Which} {both : Bool} (h : MayEnd s w both) :
    MayEnd (s.finish w') w both := by
  cases w' <;> exact h.congr rfl rfl rfl

theorem MayEnd.proper {w : Which} {both : Bool} (h : MayEnd s w both) :
    (!both || w == .first) = true := by
  cases both with
  | false => rfl
  | true => simp [h.which rfl]

theorem life_finish (w : Which) : ((s.finish w).get w).life = .ended := by
  cases w <;> rfl

theorem done_finish (w : Which) : ((s.finish w).get w).done = true := by
  cases w <;> rfl

/-- `switchTo()` leaves the current stage, and begins to destroy it if it is the second one. -/
theorem Core.leave (hc : Core s) : Core s.leave ∧ s.leave.second.built = false := by
  have hb : (s.second.built && !s.stage.isSecond) = false := by
    rw [hc.built]
    simp
  refine ⟨{ hc with
    built := hb
    second := { hc.second with built := fun h => absurd (hb.symm.trans h) (by simp) }
    gone := fun f hf hd => ⟨(hc.gone f hf hd).1, hb⟩
    executor := fun h => hc.executor (h.imp (fun h' => by cases h') id) }, hb⟩

theorem Core.switchTo {err : Err} (hc : Core s) : Core (s.switchTo (.exception err)) :=
  { hc.leave.1 with
    built := hc.leave.2
    executor := fun h => hc.executor (h.imp (fun h' => by cases h') id) }

theorem Core.joins {u : State Err} {w : Which} {both ret : Bool} (hc : Core s)
    (hend : (s.get w).life = .ended) (hm : MayEnd s w both) (h : Joins s w both u ret) : Core u := by
  cases h with
  | last => exact hc.resumeParent
  | waits => exact hc
  | asks _ hno _ hb =>
    cases w with
    | first =>
      have hl : s.second.life ≠ .new := hc.second.built hb
      refine hc.ask .second hb hno (by simp [Frame.proper]) hm.one ?_ (fun h => by cases h) ?_ ?_
      · rintro ⟨g, hg, hthen⟩
        cases (hc.not_then hl g hg).symm.trans hthen
      · exact fun _ => hm.parent rfl
      · exact hc.first.ended hend
    | second =>
      have hboth : both = false := by
        by_contra h
        cases hm.which (by simpa using h)
      have hl : s.second.life ≠ .new := by
        rw [show s.second.life = .ended from hend]
        simp
      refine hc.ask .first hb hno (by simp [Frame.proper, hboth]) (fun h => by cases h) ?_
        (fun h => by cases h) (fun h => by cases h) ?_
      · rintro ⟨g, hg, hthen⟩
        cases (hc.not_then hl g hg).symm.trans hthen
      · exact hc.second.ended hend

/-- The second stage is destroyed in `onStageDone()`. -/
theorem Core.destroySecond {stage : Stage Err} (hc : Core s) (hend : s.second.life = .ended)
    (hprop : (Frame.destroySecond stage false).proper = true) :
    Core (s.destroySecond stage false) := by
  have hl : s.second.life ≠ .new := by simp [hend]
  refine hc.leave.1.enter ⟨rfl, rfl, hprop, fun h => (by cases h), ?_, fun w h => (by cases h),
    fun w h => (by cases h), fun h => (by cases h), fun h => (by cases h),
    fun _ => ⟨hl, hc.leave.2⟩, hend⟩ fun _ => rfl
  rintro ⟨g, hg, hthen⟩
  cases (hc.not_then hl g hg).symm.trans hthen

theorem Core.settles {u : State Err} {w : Which} {both ret : Bool} (hc : Core s)
    (hend : (s.get w).life = .ended) (hm : MayEnd s w both) (h : Settles s w both u ret) :
    Core u := by
  have hboth : w = .second → both = false := by
    rintro rfl
    by_contra h
    cases hm.which (by simpa using h)
  cases h with
  | destroys hw =>
    subst hw
    rw [hboth rfl]
    exact hc.destroySecond hend rfl
  | takes hw =>
    subst hw
    rw [hboth rfl]
    have hl : s.second.life ≠ .new := by
      rw [show s.second.life = .ended from hend]
      simp
    refine hc.enter ⟨rfl, rfl, rfl, fun h => (by cases h), ?_, fun w h => (by cases h),
      fun w h => (by cases h), fun h => (by cases h), fun h => (by cases h),
      fun h => (by cases h), hend⟩ fun _ => rfl
    rintro ⟨g, hg, hthen⟩
    cases (hc.not_then hl g hg).symm.trans hthen
  | joins _ h => exact hc.joins hend hm h

/-- The stage has been marked as done. -/
theorem Core.ends {u : State Err} {w : Which} {both ret : Bool} (hc : Core (s.finish w))
    (hm : MayEnd s w both) (h : Ends s w both u ret) : Core u := by
  have hend := life_finish (s := s) w
  cases h with
  | settles h => exact hc.settles hend hm.finish h
  | asks =>
    refine hc.enter ⟨rfl, rfl, hm.proper, fun h => ?_, fun hthen => ?_, fun w h => (by cases h),
      fun w h => (by cases h), fun h => (by cases h), fun h => ?_, fun h => (by cases h), ?_⟩
        fun _ => rfl
    · cases w with
      | first => exact hm.one h
      | second => cases h
    · cases w with
      | first => rfl
      | second =>
        obtain ⟨g, hg, hthen⟩ := hthen
        have hl : (s.finish .second).second.life ≠ .new := by simp [State.finish]
        cases (hc.not_then hl g hg).symm.trans hthen
    · cases w with
      | first => exact hm.parent rfl
      | second => cases h
    · cases w <;> rfl

/-- The stage exists and has not ended. -/
def Life.alive : Life → Bool
  | .idle => true
  | .running => true
  | _ => false

theorem not_new_of_alive {life : Life} (h : life.alive = true) : life ≠ .new := by
  rintro rfl
  cases h

theorem not_threw_of_alive {life : Life} (h : life.alive = true) : life ≠ .threw := by
  rintro rfl
  cases h

/-- A stage that is alive ends. -/
theorem Core.endsAlive {u : State Err} {w : Which} {both ret : Bool} (hc : Core s)
    (hal : (s.get w).life.alive = true) (hm : MayEnd s w both) (h : Ends s w both u ret) : Core u :=
  (hc.finish (not_new_of_alive hal) (not_threw_of_alive hal)).ends hm h

/-! ### `beginStage()` -/

/-- The stage is about to be suspended. -/
theorem Core.start {w : Which} (hc : Core s) (hin : s.isIn w .idle = true)
    (hpar : w = .first → s.parent = true) :
    Core (s.set w { s.get w with started := true, life := .running }) := by
  obtain ⟨-, hidle⟩ := isIn_iff.1 hin
  cases w with
  | first =>
    have hl : s.first.life = .idle := hidle
    refine { hc with
      first := hc.first.begin hl
      firstDone := fun h => ?_
      unparented := fun h => ?_
      parented := fun h => ⟨by simp, (hc.parented h).2⟩
      construct := fun f hf h => ?_
      holds := fun f hf => Frame.holds_of (hc.holds f hf) id id (fun _ => id) (fun h => ?_) id
      threwFirst := hc.threwFirst.trans (by simp [hl])
      prepared := fun _ => by simp }
    · cases hl.symm.trans (hc.firstDone h)
    · cases h.symm.trans (hpar rfl)
    · cases hl.symm.trans (hc.construct f hf h)
    · cases hl.symm.trans h
  | second =>
    have hl : s.second.life = .idle := hidle
    have hne : s.second.life ≠ .new := by simp [hl]
    refine { hc with
      second := hc.second.begin hl
      unsignalled := fun h => absurd (hc.unsignalled h).1 hne
      thenFn := fun f hf h => absurd (hc.thenFn f hf h).1 hne
      gone := fun f hf h => ⟨by simp, (hc.gone f hf h).2⟩
      holds := fun f hf =>
        Frame.holds_of (hc.holds f hf) id id (fun _ h => absurd h hne) id fun h => ?_
      threwSecond := hc.threwSecond.trans (by simp [hl]) }
    cases hl.symm.trans h

/-- What is known when a stage is begun: in addition, `then()` is not in progress, and no other
activity opens the second stage if it is the one. -/
structure MayBegin (s : State Err) (w : Which) (both : Bool) : Prop extends MayEnd s w both where
  notThen : ∀ f ∈ s.stack, f.isThen = false
  alone : w = .second → s.signalled = true ∧ s.stack.countP Frame.opens = 0

theorem Core.readies {u : State Err} {w : Which} {both ret : Bool} (hc : Core s)
    (hb : MayBegin s w both) (h : Readies s w both u ret) : Core u := by
  cases h with
  | ready hin he =>
    refine hc.endsAlive ?_ hb.toMayEnd he
    rw [(isIn_iff.1 hin).2]
    rfl
  | suspends hin =>
    refine (hc.start hin hb.parent).enter ⟨rfl, rfl, hb.proper, fun hop => ?_, fun hthen => ?_,
      fun w h => (by cases h), fun w h => (by cases h), fun h => (by cases h), fun hl => ?_,
      fun h => (by cases h), trivial⟩ fun _ => rfl
    · cases w with
      | first => exact hb.one hop
      | second => cases hop
    · obtain ⟨g, hg, hthen⟩ := hthen
      have hno : g.isThen = false := by cases w <;> exact hb.notThen g hg
      cases hno.symm.trans hthen
    · cases w with
      | first => exact hb.parent rfl
      | second => cases hl

theorem Core.begins {u : State Err} {w : Which} {both ret : Bool} (hc : Core s)
    (hb : MayBegin s w both) (h : Begins s w both u ret) : Core u := by
  cases h with
  | done => exact hc
  | early _ hcan hno hbuilt =>
    have hu : Core ((s.set w { s.get w with cancelling := true, asked := (s.get w).asked }).enter
        (.beginEarlyCancel w both)) := by
      refine hc.enterAsk (hc.not_new_of_built hbuilt) (fun h => ?_) hno
        (fun w' h => by simpa [Frame.asks] using h) rfl rfl rfl (fun _ => rfl) hb.proper
        (fun hop => ?_) ?_ (fun h => by cases h) (fun hl => ?_) trivial
      · cases w with
        | first => exact (hc.first.asked h).2
        | second => exact (hc.second.asked h).2
      · cases w with
        | first => exact hb.one hop
        | second => exact hb.alone rfl
      · rintro ⟨g, hg, hthen⟩
        cases (hb.notThen g hg).symm.trans hthen
      · cases w with
        | first => exact hb.parent rfl
        | second => cases hl
    exact hu
  | readies _ _ hr => exact hc.readies hb hr

/-- Whether the second stage may be begun after something that leaves the calls in progress alone. -/
theorem MayBegin.second (hsig : s.signalled = true) (hone : s.stack.countP Frame.opens = 0) :
    MayBegin s .second false where
  toMayEnd := .second
  notThen := not_then_of_countP hone
  alone := fun _ => ⟨hsig, hone⟩

theorem stack_finish (w : Which) : (s.finish w).stack = s.stack := by cases w <;> rfl

theorem signalled_finish (w : Which) : (s.finish w).signalled = s.signalled := by cases w <;> rfl

/-- `onStageDone()` that has returned has left the calls in progress alone. -/
theorem stack_joins {u : State Err} {w : Which} {both : Bool} (h : Joins s w both u true) :
    u.stack = s.stack ∧ u.signalled = s.signalled := by
  cases h with
  | last => exact ⟨stack_resumeParent s, signalled_resumeParent s⟩
  | waits => exact ⟨rfl, rfl⟩

theorem stack_settles {u : State Err} {w : Which} {both : Bool} (h : Settles s w both u true) :
    u.stack = s.stack ∧ u.signalled = s.signalled := by
  cases h with
  | joins _ h => exact stack_joins h

theorem stack_ends {u : State Err} {w : Which} {both : Bool} (h : Ends s w both u true) :
    u.stack = s.stack ∧ u.signalled = s.signalled := by
  cases h with
  | settles h =>
    obtain ⟨h₁, h₂⟩ := stack_settles h
    exact ⟨h₁.trans (stack_finish w), h₂.trans (signalled_finish w)⟩

/-- A function that has returned is followed by the rest of `await_suspend()`. -/
theorem Core.next {u : State Err} {both ret : Bool} (hu : Core u)
    (hone : both = true → ret = true → u.signalled = true ∧ u.stack.countP Frame.opens = 0)
    (hcont : Continues (State.next both) u ret t) : Core t := by
  rcases next_cases hcont with ⟨rfl, -⟩ | ⟨hret, hboth, ret', hbeg⟩
  · exact hu
  · obtain ⟨hsig, hzero⟩ := hone hboth hret
    exact hu.begins (.second hsig hzero) hbeg

/-- `onStageDone()` has returned, and no other activity opens the second stage. -/
theorem MayEnd.next {u : State Err} {w : Which} {both ret : Bool} (hm : MayEnd s w both)
    (h : ret = true → u.stack = s.stack ∧ u.signalled = s.signalled) :
    both = true → ret = true → u.signalled = true ∧ u.stack.countP Frame.opens = 0 := by
  intro hboth hret
  obtain ⟨h₁, h₂⟩ := h hret
  rw [h₁, h₂]
  exact hm.one hboth

theorem Core.joinsNext {u : State Err} {w : Which} {both ret : Bool} (hc : Core s)
    (hend : (s.get w).life = .ended) (hm : MayEnd s w both) (h : Joins s w both u ret)
    (hcont : Continues (State.next both) u ret t) : Core t :=
  (hc.joins hend hm h).next (hm.next fun hret => by subst hret; exact stack_joins h) hcont

theorem Core.settlesNext {u : State Err} {w : Which} {both ret : Bool} (hc : Core s)
    (hend : (s.get w).life = .ended) (hm : MayEnd s w both) (h : Settles s w both u ret)
    (hcont : Continues (State.next both) u ret t) : Core t :=
  (hc.settles hend hm h).next (hm.next fun hret => by subst hret; exact stack_settles h) hcont

theorem Core.endsNext {u : State Err} {w : Which} {both ret : Bool} (hc : Core (s.finish w))
    (hm : MayEnd s w both) (h : Ends s w both u ret)
    (hcont : Continues (State.next both) u ret t) : Core t :=
  (hc.ends hm h).next (hm.next fun hret => by subst hret; exact stack_ends h) hcont

theorem stack_readies {u : State Err} {w : Which} {both : Bool} (h : Readies s w both u true) :
    u.stack = s.stack ∧ u.signalled = s.signalled := by
  cases h with
  | ready _ he => exact stack_ends he

theorem stack_begins {u : State Err} {w : Which} {both : Bool} (h : Begins s w both u true) :
    u.stack = s.stack ∧ u.signalled = s.signalled := by
  cases h with
  | done => exact ⟨rfl, rfl⟩
  | readies _ _ hr => exact stack_readies hr

theorem Core.readiesNext {u : State Err} {w : Which} {both ret : Bool} (hc : Core s)
    (hb : MayBegin s w both) (h : Readies s w both u ret)
    (hcont : Continues (State.next both) u ret t) : Core t :=
  (hc.readies hb h).next (hb.toMayEnd.next fun hret => by subst hret; exact stack_readies h) hcont

theorem Core.beginsNext {u : State Err} {w : Which} {both ret : Bool} (hc : Core s)
    (hb : MayBegin s w both) (h : Begins s w both u ret)
    (hcont : Continues (State.next both) u ret t) : Core t :=
  (hc.begins hb h).next (hb.toMayEnd.next fun hret => by subst hret; exact stack_begins h) hcont

/-! ### The parent -/

/-- What a returned cancellation does to the checker of the parent. -/
theorem cancelReturned_getD (c : Checker) (early done : Bool) :
    (before c.state = false → before ((if early then c.earlyCancelReturned done
      else c.cancelReturned done).getD c).state = false) ∧
    (c.state.suspended = false → ((if early then c.earlyCancelReturned done
      else c.cancelReturned done).getD c).state.suspended = false) := by
  obtain ⟨st, ex⟩ := c
  cases early <;> cases done <;> cases st <;> simp [before, State.suspended,
    Checker.earlyCancelReturned, Checker.cancelReturned, Checker.set]

theorem hasExecutor_cancelReturned (c : Checker) (early done : Bool) :
    ((if early then c.earlyCancelReturned done else c.cancelReturned done).getD c).hasExecutor =
      c.hasExecutor := by
  obtain ⟨st, ex⟩ := c
  cases early <;> cases done <;> cases st <;> rfl

theorem Core.cancelReturned {early done : Bool} (hc : Core s) (hcan : s.cancelling = true) :
    Core (s.cancelReturned early done) :=
  { hc with
    parented := fun hp => ⟨(hc.parented hp).1, (cancelReturned_getD _ _ _).1 (hc.parented hp).2⟩
    waiting := fun hp => (cancelReturned_getD _ _ _).2 (hc.waiting hp)
    asked := fun _ => hcan
    executor := fun h => (hasExecutor_cancelReturned _ _ _).trans (hc.executor h)
    prepared := fun h => hc.prepared ((hasExecutor_cancelReturned _ _ _).symm.trans h) }

/-- What `doCancelFirst` does. -/
inductive CancelsFirst (s : State Err) (early afterSecond : Bool) : State Err → Prop
  | returns {done : Bool} : (done = true → s.first.done = true ∧ s.first.cancelling = false) →
      (done = false → s.first.cancelling = true) →
      CancelsFirst s early afterSecond
        (s.cancelReturned early (done && (afterSecond || !s.second.isRunning)))
  | asks : s.first.cancelling = false → s.first.done = false → s.first.built = true →
      CancelsFirst s early afterSecond
        (({ s with first := { s.first with cancelling := true, asked := s.first.started } }).enter
          (.cancelStage .first (!s.first.started) (.doCancelFirst early afterSecond)))

theorem cancelsFirst_of_doCancelFirst {early afterSecond : Bool}
    (h : s.doCancelFirst early afterSecond = .ok t) : CancelsFirst s early afterSecond t := by
  unfold State.doCancelFirst at h
  obtain ⟨⟨ret, u⟩, hu, h⟩ := bind_eq_ok.1 h
  cases cancels_of_cancelStage hu with
  | again hcan =>
    cases h
    exact .returns (by simp) fun _ => hcan
  | nothing hcan hor =>
    cases h
    refine .returns (fun _ => ⟨?_, hcan⟩) (by simp)
    rcases hor with he | hd
    · cases he
    · exact hd
  | asks hcan _ hd hb =>
    cases h
    exact .asks hcan hd hb

theorem Core.cancelsFirst {early afterSecond : Bool} (hc : Core s) (hcan : s.cancelling = true)
    (h : CancelsFirst s early afterSecond t) : Core t := by
  cases h with
  | returns => exact hc.cancelReturned hcan
  | asks hno _ hb =>
    exact hc.ask .first hb hno rfl (fun h => by cases h) (fun _ => rfl) (fun _ => hcan)
      (fun h => by cases h) trivial

/-- What `doCancel()` does: the second stage is asked first if it runs. -/
inductive DoCancels (s : State Err) (early : Bool) : State Err → Prop
  | again : s.second.isRunning = true → s.second.cancelling = true →
      DoCancels s early (s.cancelReturned early false)
  | gone {u : State Err} : s.second.isRunning = true → s.second.cancelling = false →
      s.stage.isSecond = false → CancelsFirst s early true u → DoCancels s early u
  | asks : s.second.isRunning = true → s.second.cancelling = false → s.second.built = true →
      DoCancels s early
        (({ s with second := { s.second with cancelling := true, asked := s.second.started } }).enter
          (.cancelStage .second (!s.second.started) (.doCancelSecond early)))
  | first {u : State Err} : s.second.isRunning = false → CancelsFirst s early false u →
      DoCancels s early u

theorem doCancels_of_doCancel {early : Bool} (h : s.doCancel early = .ok t) :
    DoCancels { s with cancelling := true } early t := by
  unfold State.doCancel at h
  simp only at h
  split_ifs at h with hrun
  · have hdone : s.second.done = false := by
      simp only [StageState.isRunning, Bool.and_eq_true, Bool.not_eq_true'] at hrun
      exact hrun.2
    obtain ⟨⟨ret, u⟩, hu, h⟩ := bind_eq_ok.1 h
    cases cancels_of_cancelStage hu with
    | again hcan =>
      cases h
      exact .again hrun hcan
    | nothing hcan hor =>
      rcases hor with he | hd
      · exact .gone hrun hcan he (cancelsFirst_of_doCancelFirst h)
      · cases hdone.symm.trans hd
    | asks hcan _ _ hb =>
      cases h
      exact .asks hrun hcan hb
  · exact .first (by simpa using hrun) (cancelsFirst_of_doCancelFirst h)

theorem Core.doCancels {early : Bool} (hc : Core s) (hcan : s.cancelling = true)
    (h : DoCancels s early t) : Core t := by
  cases h with
  | again => exact hc.cancelReturned hcan
  | gone _ _ _ h => exact hc.cancelsFirst hcan h
  | asks _ hno hb =>
    refine hc.ask .second hb hno rfl (fun h => by cases h) ?_ (fun _ => hcan) (fun h => by cases h)
      trivial
    rintro ⟨g, hg, hthen⟩
    cases (hc.not_then (hc.second.built hb) g hg).symm.trans hthen
  | first _ h => exact hc.cancelsFirst hcan h

end Corral.With
