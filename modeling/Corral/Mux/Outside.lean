import Corral.Mux.Completion

/-!
# Cancellation of a mux from outside: every child is still counted once

While `await_cancel()` cancels the children, the parent is not resumed, whatever the children do; and
`await_cancel()` may itself be called by a child that an `internalCancel()` is cancelling.

* `CancelledOnce`: the condition of the runs in question, `NoneSkipped` with one `await_cancel()` between
  the end of `await_suspend()` and the resumption of the parent;
* `Layered`, `underneath`: the calls in progress, and those in which `await_cancel()` was called;
* `Origin`: what has made an `internalCancel()` possible, by a child or from outside;
* `Clean`: as long as the loop of `await_cancel()` has found no child that it could not cancel, those that
  it has got to are cancelled;
* `Whole`: the invariant.
-/

namespace Corral.Mux

open ActionMachine

variable {n : ℕ} {V Err : Type*} {m : Kind n} {minReady : ℕ} {s t u : State n V Err}

def Frame.isSuspendLoop : Frame → Bool
  | .suspendLoop _ => true
  | _ => false

/-- The mux is cancelled from outside at most once: after its `await_suspend()` has returned, and before
the parent is resumed.  An `Abortable` mux is cancelled only while all its children are running, and then
each of them confirms its cancellation, and does not resume its handle instead. -/
def CancelledOnce (m : Kind n) (s : State n V Err) : Action n V Err → Prop
  | .earlyCancel => False
  | .awaitCancel => s.returned = [] ∧ s.resumed = [] ∧ s.stack.any Frame.isSuspendLoop = false ∧
      (m.isAbortable = true → s.stack = [] ∧ ∀ j, s.child j = .running)
  | .resume _ _ => m.isAbortable = true → s.muted = false
  | .cancelReturns done => m.isAbortable = true → s.muted = true → done = true
  | a => NoneSkipped s a

instance (m : Kind n) (s : State n V Err) : (a : Action n V Err) → Decidable (CancelledOnce m s a)
  | .earlyCancel => instDecidableFalse
  | .awaitCancel => decidable_of_iff
      (s.returned.isEmpty = true ∧ s.resumed.isEmpty = true ∧ s.stack.any Frame.isSuspendLoop = false ∧
        (m.isAbortable = true → s.stack = [] ∧ ∀ j, s.child j = .running)) (by
        simp only [List.isEmpty_iff, CancelledOnce])
  | .awaitSuspend => instDecidableTrue
  | .next ans => inferInstanceAs (Decidable (NoneSkipped s (.next ans)))
  | .resume _ _ => inferInstanceAs (Decidable (m.isAbortable = true → s.muted = false))
  | .suspendReturns => instDecidableTrue
  | .suspendThrows _ => instDecidableTrue
  | .cancelReturns done =>
    inferInstanceAs (Decidable (m.isAbortable = true → s.muted = true → done = true))

/-! ### The calls in progress -/

/-- The loop of `await_suspend()` is at the bottom of the stack, and the loop of an `await_cancel()` is on it
just if the mux is muted. -/
def Layered (n : ℕ) : Bool → List Frame → Prop
  | muted, [] => muted = false
  | muted, .suspendLoop _ :: st => st = [] ∧ muted = false
  | muted, .cancelLoop .invoke _ _ :: st => Layered n muted st
  | muted, .cancelLoop .awaitCancel _ _ :: st =>
    muted = true ∧ Layered n false st ∧ st.any Frame.isSuspendLoop = false
  | _, .cancelLoop .earlyCancel _ _ :: _ => False
  | muted, .awaitSuspend _ :: st => Layered n muted st
  | muted, .awaitCancel j :: st =>
    j < n ∧ (∃ cause k all below, st = .cancelLoop cause k all :: below) ∧ Layered n muted st

/-- The calls in progress when `await_cancel()` was called. -/
def underneath : List Frame → List Frame
  | [] => []
  | .cancelLoop .awaitCancel _ _ :: st => st
  | _ :: st => underneath st

/-- The loop of `await_cancel()` has found no child that it could not cancel, so all that it has got to are
cancelled, except for the one whose `await_cancel()` is in progress. -/
def Clean (c : Fin n → HelperState) : Option ℕ → List Frame → Prop
  | _, [] => True
  | busy, .cancelLoop .awaitCancel k all :: _ =>
    all = true → ∀ i : Fin n, i < k → busy ≠ some i.val → c i = .cancelled
  | _, .awaitCancel j :: st => Clean c (some j) st
  | _, _ :: st => Clean c none st

/-- Where the loop of `await_suspend()` is in progress, nobody is cancelling the mux from outside. -/
theorem Layered.unmuted {muted : Bool} {st : List Frame} (h : Layered n muted st) {j : ℕ}
    (hj : Frame.suspendLoop j ∈ st) : muted = false := by
  induction st generalizing muted with
  | nil => cases hj
  | cons f st ih =>
    obtain hf | hmem := List.mem_cons.1 hj
    · subst hf
      exact h.2
    · cases f with
      | suspendLoop k => exact h.2
      | awaitSuspend k => exact ih h hmem
      | awaitCancel k => exact ih h.2.2 hmem
      | cancelLoop cause k all =>
        cases cause with
        | invoke => exact ih h hmem
        | earlyCancel => exact h.elim
        | awaitCancel =>
          have hany := h.2.2
          rw [List.any_eq_false] at hany
          exact absurd rfl (hany _ hmem)

/-- The loop of an `internalCancel()` gets to another child. -/
theorem Layered.loop {muted : Bool} {cause : Cause} {k k' : ℕ} {all all' : Bool} {st : List Frame}
    (h : Layered n muted (.cancelLoop cause k all :: st)) :
    Layered n muted (.cancelLoop cause k' all' :: st) := by
  cases cause <;> exact h

/-- The cause of an `internalCancel()` in these runs. -/
theorem Layered.cause {muted : Bool} {cause : Cause} {k : ℕ} {all : Bool} {st : List Frame}
    (h : Layered n muted (.cancelLoop cause k all :: st)) :
    cause = .invoke ∧ Layered n muted st ∨
      cause = .awaitCancel ∧ muted = true ∧ Layered n false st ∧
        st.any Frame.isSuspendLoop = false := by
  cases cause with
  | invoke => exact .inl ⟨rfl, h⟩
  | earlyCancel => exact h.elim
  | awaitCancel => exact .inr ⟨rfl, h⟩

/-- Nobody is cancelling the mux from outside, so there is no loop that could have found something. -/
theorem Layered.clean {st : List Frame} (h : Layered n false st) (c : Fin n → HelperState)
    (busy : Option ℕ) : Clean c busy st := by
  induction st generalizing busy with
  | nil => trivial
  | cons f st ih =>
    cases f with
    | suspendLoop k =>
      obtain ⟨rfl, -⟩ := h
      trivial
    | awaitSuspend k => exact ih h none
    | awaitCancel k => exact ih h.2.2 (some k)
    | cancelLoop cause k all =>
      obtain ⟨rfl, h⟩ | ⟨-, h, -⟩ := h.cause
      · exact ih h none
      · cases h

/-- A cancelled child remains so. -/
theorem Clean.mono {c c' : Fin n → HelperState} (hle : ∀ i, c i = .cancelled → c' i = .cancelled)
    {busy : Option ℕ} {st : List Frame} (h : Clean c busy st) : Clean c' busy st := by
  induction st generalizing busy with
  | nil => trivial
  | cons f st ih =>
    cases f with
    | suspendLoop k => exact ih h
    | awaitSuspend k => exact ih h
    | awaitCancel k => exact ih h
    | cancelLoop cause k all =>
      cases cause with
      | invoke => exact ih h
      | earlyCancel => exact ih h
      | awaitCancel => exact fun hall i hi hbusy => hle i (h hall i hi hbusy)

/-- `await_cancel()` of a child returns to the loop. -/
theorem Clean.back {c : Fin n → HelperState} {j : Fin n} {cause : Cause} {k : ℕ} {all : Bool}
    {st : List Frame} (h : Clean c (some j.val) (.cancelLoop cause k all :: st)) {now : Bool}
    (hnow : now = true → all = true ∧ c j = .cancelled) :
    Clean c none (.cancelLoop cause k now :: st) := by
  cases cause with
  | invoke => exact h
  | earlyCancel => exact h
  | awaitCancel =>
    intro hall i hi _
    obtain ⟨hall, hj⟩ := hnow hall
    by_cases hij : i = j
    · exact hij ▸ hj
    · exact h hall i hi fun he => hij (Fin.ext (Option.some.inj he).symm)

/-- The calls in progress change, but neither the loop of `await_suspend()` nor what is owed. -/
structure Restacks (n : ℕ) (muted : Bool) (st st' : List Frame) : Prop where
  owed : owed st' = owed st
  underneath : underneath st' = underneath st
  loops : ∀ j, Frame.suspendLoop j ∈ st' ↔ Frame.suspendLoop j ∈ st
  layered : Layered n muted st'

theorem Restacks.refl {muted : Bool} {st : List Frame} (h : Layered n muted st) :
    Restacks n muted st st :=
  ⟨rfl, rfl, fun _ => Iff.rfl, h⟩

/-- `await_suspend()` of a child returns, or throws. -/
theorem Restacks.suspended {muted : Bool} {j : ℕ} {st : List Frame}
    (h : Layered n muted (.awaitSuspend j :: st)) : Restacks n muted (.awaitSuspend j :: st) st :=
  ⟨rfl, rfl, fun _ => by simp, h⟩

/-- `await_cancel()` of a child returns to the loop that has called it. -/
theorem Restacks.back {muted : Bool} {j k : ℕ} {cause : Cause} {all : Bool} {st : List Frame}
    (h : Layered n muted (.awaitCancel j :: .cancelLoop cause k all :: st)) (now : Bool) :
    Restacks n muted (.awaitCancel j :: .cancelLoop cause k all :: st)
      (.cancelLoop cause k now :: st) := by
  refine ⟨?_, ?_, fun _ => by simp, h.2.2.loop⟩
  · cases cause <;> rfl
  · cases cause <;> rfl

/-- The loop of an `internalCancel()` gets to the next child. -/
theorem Restacks.loop {muted : Bool} {k : ℕ} {cause : Cause} {all : Bool} {st : List Frame}
    (h : Layered n muted (.cancelLoop cause k all :: st)) (k' : ℕ) (now : Bool) :
    Restacks n muted (.cancelLoop cause k all :: st) (.cancelLoop cause k' now :: st) := by
  refine ⟨?_, ?_, fun _ => by simp, h.loop⟩
  · cases cause <;> rfl
  · cases cause <;> rfl

/-! ### The children -/

/-- A child has a result. -/
def HelperState.answered : HelperState → Bool
  | .succeeded => true
  | .failed => true
  | _ => false

/-- Nobody has cancelled the child. -/
def HelperState.quiet : HelperState → Bool
  | .notStarted => true
  | .running => true
  | _ => false

theorem HelperState.terminal_of_answered {st : HelperState} (h : st.answered = true) :
    st.terminal = true := by
  cases st <;> first | rfl | cases h

/-- `await_cancel()` has not returned yet, or has returned true. -/
def State.silent (s : State n V Err) : Bool := s.muted || decide ((.awaitCancel, true) ∈ s.returned)

/-- What has made an `internalCancel()` possible: a child that has a result; or else a cancellation from
outside, and no `internalCancel()` was in progress before it. -/
inductive Origin (s : State n V Err) : Prop
  | answered (j : Fin n) (hj : (s.child j).answered = true)
  | outside (hm : s.muted = true) (ho : owed (underneath s.stack) = 0)
  | idle (hm : s.muted = false) (ho : owed s.stack = 0) (hq : ∀ i, (s.child i).quiet = true)

/-- Where the children and the calls in progress stand. -/
structure Form (s : State n V Err) : Prop where
  ahead : ∀ j, Frame.suspendLoop j ∈ s.stack → ∀ i : Fin n, j ≤ i → (s.child i).pending = true
  behind : ∀ i : Fin n, (s.child i).pending = true → s.bound = true →
    ∃ j, Frame.suspendLoop j ∈ s.stack ∧ j ≤ i
  fresh : s.bound = false → s.stack = [] ∧ ∀ i, s.child i = .notStarted
  layered : Layered n s.muted s.stack
  unready : ∀ i, s.child i ≠ .ready

/-- `count_`, what is owed and `extra` add up to the terminal children, and the parent has been resumed if
all children are counted, unless that is left to `await_cancel()`. -/
structure Account (extra : ℕ) (s : State n V Err) : Prop where
  counted : s.count + owed s.stack + extra = nTerminal s.child
  resumed : s.resumed.length = if s.count = n ∧ s.silent = false then 1 else 0
  snapshots : ∀ c ∈ s.resumed, ∀ j, (c j).terminal = true

/-- What is known of a cancellation from outside, and what its result says. -/
structure Outside (s : State n V Err) : Prop where
  clean : Clean s.child none s.stack
  origin : s.returned = [] → Origin s
  once : s.muted = true → s.returned = []
  confirmed : (.awaitCancel, true) ∈ s.returned →
    s.returned = [(.awaitCancel, true)] ∧ owed s.stack = 0 ∧ ∀ j, s.child j = .cancelled

/-- The invariant. -/
structure Whole (s : State n V Err) : Prop where
  form : Form s
  account : Account 0 s
  outside : Outside s
  invoked : ∀ j, s.invoked j = if (s.child j).terminal then 1 else 0

theorem whole_init (hn : 0 < n) : Whole (State.init : State n V Err) := by
  have hne : (0 : ℕ) ≠ n := by omega
  refine ⟨⟨?_, ?_, ?_, rfl, ?_⟩, ⟨?_, ?_, ?_⟩, ⟨trivial, fun _ => .idle rfl rfl fun _ => rfl, ?_, ?_⟩, ?_⟩
  all_goals simp [State.init, owed, nTerminal, HelperState.terminal, hne]

theorem Form.bound_of_started (hf : Form s) {j : Fin n} (hp : (s.child j).pending = false) :
    s.bound = true := by
  by_contra h
  rw [(hf.fresh (by simpa using h)).2 j] at hp
  cases hp

theorem Form.bound_of_stack (hf : Form s) (hne : s.stack ≠ []) : s.bound = true := by
  by_contra h
  exact hne (hf.fresh (by simpa using h)).1

theorem Form.restack (hf : Form s) (hb : s.bound = true) {st : List Frame}
    (hr : Restacks n s.muted s.stack st) : Form { s with stack := st } := by
  refine ⟨fun j hj => hf.ahead j ((hr.loops j).1 hj), fun i hp hb' => ?_, fun hb' => ?_, hr.layered,
    hf.unready⟩
  · obtain ⟨j, hj, hle⟩ := hf.behind i hp hb'
    exact ⟨j, (hr.loops j).2 hj, hle⟩
  · exact not_fresh hb hb'

/-- A child changes its state, and has been started before and after, or neither. -/
theorem Form.setState (hf : Form s) (hb : s.bound = true) {j : Fin n} {st : HelperState}
    (hst : st.pending = (s.child j).pending) (hne : st ≠ .ready) : Form (s.setState j st) := by
  have hchild : ∀ i, ((s.setState j st).child i).pending = (s.child i).pending := by
    intro i
    simp only [State.setState, Function.update_apply]
    split_ifs with h
    · rw [h, hst]
    · rfl
  refine ⟨fun k hk i hi => ?_, fun i hi hb => ?_, fun hb' => ?_, hf.layered, fun i => ?_⟩
  · rw [hchild]
    exact hf.ahead k hk i hi
  · rw [hchild] at hi
    exact hf.behind i hi hb
  · exact not_fresh hb hb'
  · simp only [State.setState, Function.update_apply]
    split_ifs
    · exact hne
    · exact hf.unready i

/-- A child that is not done changes its state: cancelled children remain so. -/
theorem cancelled_of_update {c : Fin n → HelperState} {j : Fin n} (hj : (c j).terminal = false)
    (st : HelperState) (i : Fin n) (hi : c i = .cancelled) :
    Function.update c j st i = .cancelled := by
  have hne : i ≠ j := by
    rintro rfl
    rw [hi] at hj
    cases hj
  rwa [Function.update_of_ne hne]

theorem answered_of_update {c : Fin n → HelperState} {j : Fin n} (hj : (c j).terminal = false)
    (st : HelperState) {i : Fin n} (hi : (c i).answered = true) :
    (Function.update c j st i).answered = true := by
  have hne : i ≠ j := by
    rintro rfl
    rw [HelperState.terminal_of_answered hi] at hj
    cases hj
  rwa [Function.update_of_ne hne]

/-- A cancellation that is confirmed leaves no child that is not done. -/
theorem Outside.unconfirmed (ho : Outside s) {j : Fin n} (hj : (s.child j).terminal = false) :
    (.awaitCancel, true) ∉ s.returned := by
  intro h
  rw [(ho.confirmed h).2.2 j] at hj
  cases hj


/-! ### Counting -/

/-- What `MuxBase::invoke()` does before it counts. -/
def State.noted (s : State n V Err) (j : Fin n) (err : Option Err) : State n V Err :=
  { s with
    error := if err.isSome && s.error.isNone then err else s.error
    invoked := Function.update s.invoked j (s.invoked j + 1) }

theorem muxInvoke_noted (minReady : ℕ) (s : State n V Err) (j : Fin n) (err : Option Err) :
    s.muxInvoke minReady j err = (s.noted j err).advance ∨
      s.muxInvoke minReady j err = (s.noted j err).enter (.cancelLoop .invoke 0 true) := by
  by_cases hn : s.count + 1 = n
  · left
    unfold State.muxInvoke State.advance State.noted
    simp only [if_pos hn]
  · by_cases hc : (err.isSome && s.error.isNone || s.count + 1 == minReady) = true
    · right
      unfold State.muxInvoke State.noted
      simp only [if_neg hn, if_pos hc, Nat.add_sub_cancel]
    · left
      unfold State.muxInvoke State.advance State.noted
      simp only [if_neg hn, if_neg hc]

theorem advance_rest (s : State n V Err) :
    s.advance.returned = s.returned ∧ s.advance.storage = s.storage ∧ s.advance.error = s.error := by
  unfold State.advance State.resumeParent
  split_ifs <;> exact ⟨rfl, rfl, rfl⟩

theorem Form.congr (hf : Form s) (hc : t.child = s.child) (hst : t.stack = s.stack)
    (hb : t.bound = s.bound) (hm : t.muted = s.muted) : Form t := by
  obtain ⟨h₁, h₂, h₃, h₄, h₅⟩ := hf
  refine ⟨?_, ?_, ?_, ?_, ?_⟩
  · rwa [hc, hst]
  · rwa [hc, hst, hb]
  · rwa [hc, hst, hb]
  · rwa [hst, hm]
  · rwa [hc]

theorem Outside.congr (ho : Outside s) (hc : t.child = s.child) (hst : t.stack = s.stack)
    (hm : t.muted = s.muted) (hr : t.returned = s.returned) : Outside t := by
  obtain ⟨h₁, h₂, h₃, h₄⟩ := ho
  refine ⟨by rwa [hc, hst], fun hret => ?_, by rwa [hm, hr], by rwa [hc, hst, hr]⟩
  rw [hr] at hret
  cases h₂ hret with
  | answered j hj => exact .answered j (by rwa [hc])
  | outside hmuted h => exact .outside (hm.trans hmuted) (by rwa [hst])
  | idle hmuted h hq => exact .idle (hm.trans hmuted) (by rwa [hst]) (by rwa [hc])

/-- The last child is counted; the parent is resumed, or this is left to `await_cancel()`. -/
theorem Account.advance (ha : Account 1 s) (hnot : (.awaitCancel, true) ∉ s.returned) :
    Account 0 s.advance := by
  obtain ⟨hc, hr, hs⟩ := ha
  have hle := nTerminal_le s.child
  -- One terminal child is not counted yet, so the parent has not been resumed.
  have hne : s.count ≠ n := by omega
  rw [if_neg fun h => hne h.1, List.length_eq_zero_iff] at hr
  unfold State.advance
  split_ifs with hn
  · have hall : nTerminal s.child = n := by omega
    have hcounted : s.count + 1 + owed s.stack + 0 = nTerminal s.child := by omega
    unfold State.resumeParent
    cases hm : s.muted with
    | true =>
      refine ⟨hcounted, ?_, ?_⟩
      · simp [State.silent, hr]
      · simp [hr]
    | false =>
      refine ⟨hcounted, ?_, fun c hmem => ?_⟩
      · simp [State.silent, hnot, hr, hn]
      · have hmem : c ∈ s.resumed ++ [s.child] := hmem
        rw [hr, List.nil_append, List.mem_singleton] at hmem
        exact hmem ▸ terminal_of_nTerminal_eq hall
  · refine ⟨?_, ?_, hs⟩
    · show s.count + 1 + owed s.stack + 0 = nTerminal s.child
      omega
    · show s.resumed.length = if s.count + 1 = n ∧ _ then 1 else 0
      rw [hr, if_neg fun h => hn h.1]
      rfl

/-- `MuxBase::invoke()` counts a child that has become terminal. -/
theorem Whole.muxInvoke {j : Fin n} {err : Option Err} (hf : Form s) (ha : Account 1 s) (ho : Outside s)
    (hb : s.bound = true) (hnot : (.awaitCancel, true) ∉ s.returned)
    (hcause : s.returned = [] → s.muted = false → ∃ i, (s.child i).answered = true)
    (hi : ∀ i, s.invoked i + (if i = j then 1 else 0) = if (s.child i).terminal then 1 else 0) :
    Whole (s.muxInvoke minReady j err) := by
  have hfu : Form (s.noted j err) := hf.congr rfl rfl rfl rfl
  have hau : Account 1 (s.noted j err) := ⟨ha.counted, ha.resumed, ha.snapshots⟩
  have hou : Outside (s.noted j err) := ho.congr rfl rfl rfl rfl
  have hiu : ∀ i, (s.noted j err).invoked i = if (s.child i).terminal then 1 else 0 := by
    intro i
    rw [← hi i]
    simp only [State.noted, Function.update_apply]
    split_ifs with h
    · rw [h]
    · rfl
  obtain hu | hu := muxInvoke_noted minReady s j err
  · obtain ⟨hac, hast, hab, ham, hai⟩ := advance_frame (s.noted j err)
    obtain ⟨har, -, -⟩ := advance_rest (s.noted j err)
    rw [hu]
    refine ⟨hfu.congr hac hast hab ham, hau.advance hnot, hou.congr hac hast ham har, fun i => ?_⟩
    rw [hai, hac]
    exact hiu i
  · rw [hu]
    refine ⟨⟨fun k hk i hki => ?_, fun i hp hb' => ?_, fun hb' => not_fresh hb hb', hf.layered, hf.unready⟩,
      ⟨?_, ha.resumed, ha.snapshots⟩, ⟨ho.clean, fun hret => ?_, ho.once, fun h => absurd h hnot⟩, hiu⟩
    · refine hf.ahead k ?_ i hki
      simpa [State.enter, State.noted] using hk
    · obtain ⟨k, hk, hle⟩ := hf.behind i hp hb'
      exact ⟨k, List.mem_cons_of_mem _ hk, hle⟩
    · exact ha.counted
    · cases ho.origin hret with
      | answered i hi => exact .answered i hi
      | outside hm h => exact .outside hm h
      | idle hm h hq =>
        obtain ⟨i, hi⟩ := hcause hret hm
        exact .answered i hi

/-! ### Children -/

/-- How a child becomes terminal: its state, the storage, and what `MuxBase::invoke()` is told. -/
inductive Result (s : State n V Err) (j : Fin n) : HelperState → (Fin n → Option V) → Option Err → Prop
  | value (v : V) : Result s j .succeeded (Function.update s.storage j (some v)) none
  | error (err : Err) : Result s j .failed s.storage (some err)
  | cancelled (h : s.child j = .cancelling) : Result s j .cancelled s.storage none

theorem Result.terminal {j : Fin n} {st : HelperState} {storage : Fin n → Option V} {err : Option Err}
    (h : Result s j st storage err) : st.terminal = true := by
  cases h <;> rfl

theorem helperInvoke_result {j : Fin n} {ans : Answers V Err}
    (hs : s.helperInvoke minReady j ans = .ok t) :
    (s.child j).pending = false ∧ (s.child j).terminal = false ∧
    ∃ st storage err, Result s j st storage err ∧
      t = ({ s with child := Function.update s.child j st, storage := storage } :
        State n V Err).muxInvoke minReady j err := by
  have hreport : ∃ st storage err, Result s j st storage err ∧
      s.reportResult minReady j ans = ({ s with
        child := Function.update s.child j st, storage := storage } :
        State n V Err).muxInvoke minReady j err := by
    unfold State.reportResult
    split
    · exact ⟨_, _, _, .value _, rfl⟩
    · exact ⟨_, _, _, .error _, rfl⟩
  unfold State.helperInvoke at hs
  split at hs
  · rename_i hc
    refine ⟨by rw [hc]; rfl, by rw [hc]; rfl, ?_⟩
    split_ifs at hs
    · cases hs
      exact hreport
    · cases hs
      exact ⟨_, _, _, .cancelled hc, rfl⟩
  · rename_i hc
    cases hs
    exact ⟨by rw [hc]; rfl, by rw [hc]; rfl, hreport⟩
  · rename_i hc
    cases hs
    exact ⟨by rw [hc]; rfl, by rw [hc]; rfl, hreport⟩
  · cases hs

/-- A child becomes terminal while nobody is cancelling the mux from outside: it has a result, or an
`internalCancel()` has cancelled it, which some result has caused. -/
theorem Outside.cause (ho : Outside s) (hret : s.returned = []) (hm : s.muted = false) {j : Fin n}
    (hj : (s.child j).terminal = false) {st : HelperState} {storage : Fin n → Option V}
    {err : Option Err} (hres : Result s j st storage err) :
    ∃ i, (Function.update s.child j st i).answered = true := by
  cases ho.origin hret with
  | answered i hi => exact ⟨i, answered_of_update hj st hi⟩
  | outside hm' h =>
    rw [hm] at hm'
    cases hm'
  | idle _ _ hq =>
    refine ⟨j, ?_⟩
    rw [Function.update_self]
    cases hres with
    | value v => rfl
    | error err => rfl
    | cancelled hc =>
      have hquiet := hq j
      rw [hc] at hquiet
      cases hquiet

/-- A child that has been started becomes terminal and is counted; calls of its awaiter may return with
that. -/
theorem Whole.complete (hw : Whole s) {j : Fin n} (hp : (s.child j).pending = false)
    (hj : (s.child j).terminal = false) {st : HelperState} {storage : Fin n → Option V}
    {err : Option Err} (hres : Result s j st storage err) {stack : List Frame}
    (hr : Restacks n s.muted s.stack stack) (hclean : Clean (Function.update s.child j st) none stack) :
    Whole (({ s with
      child := Function.update s.child j st, stack := stack, storage := storage } :
      State n V Err).muxInvoke minReady j err) := by
  have hst := hres.terminal
  have hb := hw.form.bound_of_started hp
  have hstp : st.pending = false := by
    cases h : st.pending with
    | false => rfl
    | true =>
      rw [HelperState.not_terminal_of_pending h] at hst
      cases hst
  have hform : Form (({ s with stack := stack } : State n V Err).setState j st) := by
    refine (hw.form.restack hb hr).setState hb (hstp.trans hp.symm) ?_
    rintro rfl
    cases hst
  have hcause := fun hret hm => hw.outside.cause hret hm hj hres
  refine Whole.muxInvoke (hform.congr rfl rfl rfl rfl) ⟨?_, hw.account.resumed, hw.account.snapshots⟩
    ⟨hclean, fun hret => ?_, hw.outside.once, fun h => absurd h (hw.outside.unconfirmed hj)⟩ hb
    (hw.outside.unconfirmed hj) hcause fun i => ?_
  · show s.count + owed stack + 1 = nTerminal (Function.update s.child j st)
    rw [nTerminal_update_terminal hj hst, ← hw.account.counted, hr.owed]
  · cases hm : s.muted with
    | false =>
      obtain ⟨i, hi⟩ := hcause hret hm
      exact .answered i hi
    | true =>
      cases hw.outside.origin hret with
      | answered i hi => exact .answered i (answered_of_update hj st hi)
      | outside _ h =>
        refine .outside rfl ?_
        show owed (underneath stack) = 0
        rwa [hr.underneath]
      | idle hm' _ _ =>
        rw [hm] at hm'
        cases hm'
  · show s.invoked i + (if i = j then 1 else 0) = if (Function.update s.child j st i).terminal then 1 else 0
    rw [hw.invoked i, Function.update_apply]
    by_cases h : i = j
    · subst h
      simp [hj, hst]
    · simp [h]

theorem Whole.helperInvoke (hw : Whole s) {j : Fin n} {ans : Answers V Err}
    (hs : s.helperInvoke minReady j ans = .ok t) : Whole t := by
  obtain ⟨hp, hj, st, storage, err, hres, rfl⟩ := helperInvoke_result hs
  exact hw.complete hp hj hres (.refl hw.form.layered)
    (hw.outside.clean.mono (cancelled_of_update hj st))

/-- The calls in progress change. -/
theorem Whole.restack (hw : Whole s) (hb : s.bound = true) {stack : List Frame}
    (hr : Restacks n s.muted s.stack stack) (hclean : Clean s.child none stack) :
    Whole { s with stack := stack } := by
  refine ⟨hw.form.restack hb hr, ⟨?_, hw.account.resumed, hw.account.snapshots⟩,
    ⟨hclean, fun hret => ?_, hw.outside.once, fun h => ?_⟩, hw.invoked⟩
  · show s.count + owed stack + 0 = nTerminal s.child
    rw [hr.owed]
    exact hw.account.counted
  · cases hw.outside.origin hret with
    | answered i hi => exact .answered i hi
    | outside hm h =>
      refine .outside hm ?_
      show owed (underneath stack) = 0
      rwa [hr.underneath]
    | idle hm h hq =>
      refine .idle hm ?_ hq
      show owed stack = 0
      rwa [hr.owed]
  · obtain ⟨hret, howed, hall⟩ := hw.outside.confirmed h
    refine ⟨hret, ?_, hall⟩
    show owed stack = 0
    rwa [hr.owed]

/-- An `internalCancel()` requests the cancellation of a child. -/
theorem Whole.request (hw : Whole s) (hb : s.bound = true) {j : Fin n} {st : HelperState}
    (hp : st.pending = (s.child j).pending) (hj : (s.child j).terminal = false)
    (hst : st.terminal = false) (hne : st ≠ .ready) (hbusy : s.muted = false → owed s.stack ≠ 0)
    {stack : List Frame} (hr : Restacks n s.muted s.stack stack)
    (hclean : Clean (Function.update s.child j st) none stack) :
    Whole { s with child := Function.update s.child j st, stack := stack } := by
  have hform : Form (({ s with stack := stack } : State n V Err).setState j st) :=
    (hw.form.restack hb hr).setState hb hp hne
  refine ⟨hform, ⟨?_, hw.account.resumed, hw.account.snapshots⟩,
    ⟨hclean, fun hret => ?_, hw.outside.once, fun h => absurd h (hw.outside.unconfirmed hj)⟩, fun i => ?_⟩
  · show s.count + owed stack + 0 = nTerminal (Function.update s.child j st)
    rw [nTerminal_update hj hst, hr.owed]
    exact hw.account.counted
  · cases hw.outside.origin hret with
    | answered i hi => exact .answered i (answered_of_update hj st hi)
    | outside hm h =>
      refine .outside hm ?_
      show owed (underneath stack) = 0
      rwa [hr.underneath]
    | idle hm h _ => exact absurd h (hbusy hm)
  · show s.invoked i = if (Function.update s.child j st i).terminal then 1 else 0
    rw [hw.invoked i, Function.update_apply]
    by_cases h : i = j
    · rw [if_pos h, h, hj, hst]
    · rw [if_neg h]


/-! ### The loops -/

theorem suspend_of_pending {j : Fin n} {ans : Answers V Err} (hp : (s.child j).pending = true)
    (hs : s.suspend minReady j ans = .ok t) :
    ∃ st : HelperState, st.active = true ∧ (s.child j = .notStarted → st = .running) ∧
      ((s.setState j st).helperInvoke minReady j ans = .ok t ∨
        t = (s.setState j st).enter (.awaitSuspend j)) := by
  refine ⟨if s.child j = .cancellationPending then .cancelling else .running, ?_, fun h => ?_, ?_⟩
  · split_ifs <;> rfl
  · rw [if_neg (by rw [h]; exact HelperState.noConfusion)]
  · have hkick : s.kickOff minReady j ans = .ok t := by
      unfold State.suspend at hs
      cases hc : s.child j with
      | notStarted => rwa [hc] at hs
      | cancellationPending => rwa [hc] at hs
      | _ =>
        rw [hc] at hp
        cases hp
    unfold State.kickOff at hkick
    by_cases hr : ans.ready = true
    · rw [if_pos hr] at hkick
      exact .inl hkick
    · rw [if_neg hr] at hkick
      cases hkick
      exact .inr rfl

/-- A child is started, and the loop of `await_suspend()` is ahead of it. -/
theorem Whole.started (hw : Whole s) {j : ℕ} (hst : s.stack = [.suspendLoop j]) (h : j < n)
    {st : HelperState} (hact : st.active = true)
    (hrun : s.child ⟨j, h⟩ = .notStarted → st = .running) :
    Whole ({ s with stack := [.suspendLoop (j + 1)] }.setState ⟨j, h⟩ st) := by
  obtain ⟨hsp, hterm, hready⟩ := HelperState.of_active hact
  have hmem : ∀ k, Frame.suspendLoop k ∈ s.stack ↔ k = j := fun k => by simp [hst]
  have hpend := hw.form.ahead j ((hmem j).2 rfl) ⟨j, h⟩ le_rfl
  have hb := hw.form.bound_of_stack (by rw [hst]; exact List.cons_ne_nil _ _)
  have hnot := HelperState.not_terminal_of_pending hpend
  have hm : s.muted = false := hw.form.layered.unmuted ((hmem j).2 rfl)
  have hchild : ∀ i : Fin n, i ≠ ⟨j, h⟩ →
      ({ s with stack := [.suspendLoop (j + 1)] }.setState ⟨j, h⟩ st).child i = s.child i :=
    fun i hi => Function.update_of_ne hi _ _
  have hcounted := hw.account.counted
  rw [hst] at hcounted
  refine ⟨⟨fun k hk i hki => ?_, fun i hip _ => ?_, fun hb' => not_fresh hb hb', ⟨rfl, hm⟩, fun i => ?_⟩,
    ⟨?_, hw.account.resumed, hw.account.snapshots⟩,
    ⟨trivial, fun hret => ?_, hw.outside.once, fun h => absurd h (hw.outside.unconfirmed hnot)⟩,
    fun i => ?_⟩
  · have hkj : k = j + 1 := by simpa [State.setState] using hk
    have hne : i ≠ ⟨j, h⟩ := by
      intro he
      have : i.val = j := congrArg Fin.val he
      omega
    rw [hchild i hne]
    exact hw.form.ahead j ((hmem j).2 rfl) i (by omega)
  · have hne : i ≠ ⟨j, h⟩ := by
      rintro rfl
      have hst' : st.pending = true := by simpa [State.setState] using hip
      rw [hsp] at hst'
      cases hst'
    rw [hchild i hne] at hip
    obtain ⟨k, hk, hle⟩ := hw.form.behind i hip hb
    have hkj := (hmem k).1 hk
    have hij : i.val ≠ j := fun he => hne (Fin.ext he)
    exact ⟨j + 1, List.mem_singleton.2 rfl, by omega⟩
  · by_cases hij : i = ⟨j, h⟩
    · simpa [State.setState, hij] using hready
    · rw [hchild i hij]
      exact hw.form.unready i
  · show s.count + owed [.suspendLoop (j + 1)] + 0 = nTerminal (Function.update s.child _ st)
    rw [nTerminal_update hnot hterm]
    exact hcounted
  · cases hw.outside.origin hret with
    | answered i hi => exact .answered i (answered_of_update hnot st hi)
    | outside hm' _ =>
      rw [hm] at hm'
      cases hm'
    | idle _ _ hq =>
      refine .idle hm rfl fun i => ?_
      by_cases hij : i = ⟨j, h⟩
      · have hquiet := hq ⟨j, h⟩
        have hrunning : st = .running := by
          apply hrun
          cases hc : s.child ⟨j, h⟩ <;> simp_all [HelperState.quiet, HelperState.pending]
        subst hij hrunning
        simp [State.setState, HelperState.quiet]
      · rw [hchild i hij]
        exact hq i
  · show s.invoked i = if (Function.update s.child ⟨j, h⟩ st i).terminal then 1 else 0
    rw [hw.invoked i, Function.update_apply]
    by_cases hij : i = ⟨j, h⟩
    · rw [hij, if_pos rfl, hnot, hterm]
    · rw [if_neg hij]

/-- The loop of `await_suspend()` gets to the next child. -/
theorem Whole.suspendNext (hw : Whole s) {j : ℕ} (hst : s.stack = [.suspendLoop j]) (h : j < n)
    {ans : Answers V Err}
    (hs : { s with stack := [.suspendLoop (j + 1)] }.suspend minReady ⟨j, h⟩ ans = .ok t) : Whole t := by
  have hpend := hw.form.ahead j (by rw [hst]; exact List.mem_singleton.2 rfl) ⟨j, h⟩ le_rfl
  obtain ⟨st, hact, hrun, hcase⟩ := suspend_of_pending
    (s := { s with stack := [.suspendLoop (j + 1)] }) hpend hs
  have hstarted := hw.started hst h hact hrun
  obtain hinvoke | rfl := hcase
  · exact hstarted.helperInvoke hinvoke
  · have hb := hw.form.bound_of_stack (by rw [hst]; exact List.cons_ne_nil _ _)
    exact hstarted.restack hb ⟨rfl, rfl, fun k => by simp [State.setState], hstarted.form.layered⟩ trivial

/-- The loop of `await_suspend()` ends. -/
theorem Whole.suspendDone (hw : Whole s) {j : ℕ} (hst : s.stack = [.suspendLoop j]) (h : ¬ j < n) :
    Whole { s with stack := [] } := by
  have hb := hw.form.bound_of_stack (by rw [hst]; exact List.cons_ne_nil _ _)
  have hm : s.muted = false := hw.form.layered.unmuted (by rw [hst]; exact List.mem_singleton.2 rfl)
  have hcounted := hw.account.counted
  rw [hst] at hcounted
  refine ⟨⟨fun k hk => (by cases hk), fun i hip _ => ?_, fun hb' => not_fresh hb hb', hm, hw.form.unready⟩,
    ⟨hcounted, hw.account.resumed, hw.account.snapshots⟩,
    ⟨trivial, fun hret => ?_, hw.outside.once, fun h => ⟨(hw.outside.confirmed h).1, rfl, (hw.outside.confirmed h).2.2⟩⟩,
    hw.invoked⟩
  · obtain ⟨k, hk, hle⟩ := hw.form.behind i hip hb
    rw [hst] at hk
    cases List.mem_singleton.1 hk
    omega
  · cases hw.outside.origin hret with
    | answered i hi => exact .answered i hi
    | outside hm' _ =>
      rw [hm] at hm'
      cases hm'
    | idle _ _ hq => exact .idle hm rfl hq

/-- The loop of an `internalCancel()` gets past a child. -/
theorem Clean.pass {c : Fin n → HelperState} {cause : Cause} {j : ℕ} {all now : Bool} {st : List Frame}
    (h : Clean c none (.cancelLoop cause j all :: st)) {busy : Option ℕ}
    (hnow : now = true → all = true ∧ ∀ i : Fin n, i.val = j → busy ≠ some j → c i = .cancelled) :
    Clean c busy (.cancelLoop cause (j + 1) now :: st) := by
  cases cause with
  | invoke => exact h
  | earlyCancel => exact h
  | awaitCancel =>
    intro hall i hi hbusy
    obtain ⟨hall, hj⟩ := hnow hall
    obtain hij | hij := Nat.lt_succ_iff_lt_or_eq.1 hi
    · exact h hall i hij (Option.some_ne_none _).symm
    · exact hj i hij (by rwa [← hij])

/-- The loop of an `internalCancel()` gets to the next child, which has been started or refuses to be
cancelled early. -/
theorem Whole.cancelNext (hw : Whole s) {cause : Cause} {j : ℕ} {all : Bool} {below : List Frame}
    (hst : s.stack = .cancelLoop cause j all :: below) (h : j < n) {ans : Answers V Err}
    (hok : s.child ⟨j, h⟩ = .notStarted → ans.earlyCancel = false) :
    Whole ({ s with stack := below }.cancel minReady cause all ⟨j, h⟩ ans) := by
  have hb := hw.form.bound_of_stack (by rw [hst]; exact List.cons_ne_nil _ _)
  have hlay := hw.form.layered
  have hclean := hw.outside.clean
  rw [hst] at hlay hclean
  have hrestack : ∀ now, Restacks n s.muted s.stack (.cancelLoop cause (j + 1) now :: below) := by
    intro now
    rw [hst]
    exact .loop hlay _ _
  have hbusy : s.muted = false → owed s.stack ≠ 0 := by
    intro hm
    obtain ⟨rfl, -⟩ | ⟨-, hm', -⟩ := hlay.cause
    · rw [hst]
      exact Nat.succ_ne_zero _
    · rw [hm] at hm'
      cases hm'
  unfold State.cancel
  split
  · rename_i hc
    have hc : s.child ⟨j, h⟩ = .notStarted := hc
    rw [hok hc]
    have hj : (s.child ⟨j, h⟩).terminal = false := by
      rw [hc]
      rfl
    refine hw.request hb (by rw [hc]; rfl) hj rfl HelperState.noConfusion hbusy (hrestack _) ?_
    exact (hclean.mono (cancelled_of_update hj _)).pass fun hall => by simp at hall
  · rename_i hc
    have hc : s.child ⟨j, h⟩ = .running := hc
    have hj : (s.child ⟨j, h⟩).terminal = false := by
      rw [hc]
      rfl
    have hcall : Restacks n s.muted s.stack
        (.awaitCancel j :: .cancelLoop cause (j + 1) (all && true) :: below) := by
      obtain ⟨h₁, h₂, h₃, h₄⟩ := hrestack (all && true)
      refine ⟨h₁, h₂, fun k => ?_, h, ⟨_, _, _, _, rfl⟩, h₄⟩
      rw [← h₃ k]
      simp
    refine hw.request hb (by rw [hc]; rfl) hj rfl HelperState.noConfusion hbusy hcall ?_
    refine (hclean.mono (cancelled_of_update hj _)).pass fun hall => ⟨?_, fun i _ hne => absurd rfl hne⟩
    rwa [Bool.and_true] at hall
  · rename_i hc
    refine hw.restack hb (hrestack _) (hclean.pass fun hall => ⟨?_, fun i hi _ => ?_⟩)
    · rwa [Bool.and_true] at hall
    · rw [show i = ⟨j, h⟩ from Fin.ext hi]
      exact hc
  · refine hw.restack hb (hrestack _) (hclean.pass fun hall => ?_)
    rw [Bool.and_false] at hall
    cases hall

/-- `internalCancel()` returns to `invoke()`. -/
theorem Whole.cancelDone (hw : Whole s) {j : ℕ} {all : Bool} {below : List Frame}
    (hst : s.stack = .cancelLoop .invoke j all :: below) :
    Whole ({ s with stack := below }.afterCancel .invoke all) := by
  have hb := hw.form.bound_of_stack (by rw [hst]; exact List.cons_ne_nil _ _)
  have howed : owed s.stack = owed below + 1 := by rw [hst]; rfl
  have hnot : (.awaitCancel, true) ∉ s.returned := by
    intro h
    have hzero := (hw.outside.confirmed h).2.1
    omega
  have hlay := hw.form.layered
  have hclean := hw.outside.clean
  rw [hst] at hlay hclean
  have hform : Form { s with stack := below } := by
    refine ⟨fun k hk => hw.form.ahead k ?_, fun i hip hb => ?_, fun hb' => not_fresh hb hb', hlay,
      hw.form.unready⟩
    · rw [hst]
      exact List.mem_cons_of_mem _ hk
    · obtain ⟨k, hk, hle⟩ := hw.form.behind i hip hb
      rw [hst] at hk
      exact ⟨k, by simpa using hk, hle⟩
  -- What the frame owed is now counted.
  have haccount : Account 1 { s with stack := below } := by
    obtain ⟨hc, hr, hsnap⟩ := hw.account
    refine ⟨?_, hr, hsnap⟩
    show s.count + owed below + 1 = nTerminal s.child
    omega
  have houtside : Outside { s with stack := below } := by
    refine ⟨hclean, fun hret => ?_, hw.outside.once, fun h => absurd h hnot⟩
    cases hw.outside.origin hret with
    | answered i hi => exact .answered i hi
    | outside hm h =>
      rw [hst] at h
      exact .outside hm h
    | idle _ h _ => omega
  obtain ⟨hac, hast, hab, ham, hai⟩ := advance_frame { s with stack := below }
  obtain ⟨har, -, -⟩ := advance_rest { s with stack := below }
  refine ⟨hform.congr hac hast hab ham, haccount.advance hnot, houtside.congr hac hast ham har,
    fun i => ?_⟩
  show State.invoked (State.advance _) i = if (State.child (State.advance _) i).terminal then 1 else 0
  rw [hai, hac]
  exact hw.invoked i

/-- `await_cancel()` returns.  If it has found no child that it could not cancel, then all children are
cancelled and counted, and the parent is not resumed; otherwise it is resumed if they are all counted. -/
theorem Whole.awaitCancelDone (hw : Whole s) {j : ℕ} {all : Bool} {below : List Frame}
    (hst : s.stack = .cancelLoop .awaitCancel j all :: below) (hj : ¬ j < n) :
    Whole ({ s with stack := below }.afterCancel .awaitCancel all) := by
  have hb := hw.form.bound_of_stack (by rw [hst]; exact List.cons_ne_nil _ _)
  have hlay := hw.form.layered
  have hclean := hw.outside.clean
  rw [hst] at hlay hclean
  obtain ⟨hm, hlay, -⟩ := hlay
  have hret := hw.outside.once hm
  have howed : owed s.stack = owed below := by rw [hst]; rfl
  have hcounted : s.count + owed below + 0 = nTerminal s.child := by
    rw [← howed]
    exact hw.account.counted
  have hnone : s.resumed = [] := by
    have hr := hw.account.resumed
    rwa [if_neg (by simp [State.silent, hm]), List.length_eq_zero_iff] at hr
  have hform : Form { s with muted := false, stack := below } := by
    refine ⟨fun k hk => hw.form.ahead k ?_, fun i hip hb => ?_, fun hb' => not_fresh hb hb', hlay,
      hw.form.unready⟩
    · rw [hst]
      exact List.mem_cons_of_mem _ hk
    · obtain ⟨k, hk, hle⟩ := hw.form.behind i hip hb
      rw [hst] at hk
      exact ⟨k, by simpa using hk, hle⟩
  simp only [State.afterCancel]
  cases all with
  | true =>
    have hcancelled : ∀ i, s.child i = .cancelled := fun i =>
      hclean rfl i (by omega) (Option.some_ne_none _).symm
    have hzero : owed below = 0 := by
      cases hw.outside.origin hret with
      | answered i hi =>
        rw [hcancelled i] at hi
        cases hi
      | outside _ h =>
        rw [hst] at h
        exact h
      | idle hm' _ _ =>
        rw [hm] at hm'
        cases hm'
    rw [if_pos rfl]
    refine ⟨hform.congr rfl rfl rfl rfl, ⟨hcounted, ?_, hw.account.snapshots⟩,
      ⟨hlay.clean _ _, fun h => ?_, fun h => (by cases h),
        fun _ => ⟨?_, hzero, hcancelled⟩⟩, hw.invoked⟩
    · simp [State.silent, hnone]
    · simp at h
    · simp [hret]
  | false =>
    have hnot : ((.awaitCancel, true) : Cause × Bool) ∉ s.returned ++ [(.awaitCancel, false)] := by
      simp [hret]
    have houtside : Outside { s with
        muted := false, returned := s.returned ++ [(.awaitCancel, false)], stack := below } :=
      ⟨hlay.clean _ _, fun h => (by simp at h), fun h => (by cases h), fun h => absurd h hnot⟩
    rw [if_neg Bool.false_ne_true]
    split_ifs with hn
    · have hall : nTerminal s.child = n := by
        have hle := nTerminal_le s.child
        omega
      refine ⟨hform.congr rfl rfl rfl rfl, ⟨hcounted, ?_, fun c hmem => ?_⟩,
        houtside.congr rfl rfl rfl rfl, hw.invoked⟩
      · simp [State.resumeParent, State.silent, hnone, hret, hn]
      · have hmem : c ∈ s.resumed ++ [s.child] := hmem
        rw [hnone, List.nil_append, List.mem_singleton] at hmem
        exact hmem ▸ terminal_of_nTerminal_eq hall
    · refine ⟨hform.congr rfl rfl rfl rfl, ⟨hcounted, ?_, hw.account.snapshots⟩, houtside, hw.invoked⟩
      simp [hnone, hn]

theorem Whole.next (hw : Whole s) {ans : Answers V Err} (hok : NoneSkipped s (.next ans))
    (hs : s.next m minReady ans = .ok t) : Whole t := by
  have hlay := hw.form.layered
  unfold State.next at hs
  split at hs
  · rename_i j below hst
    rw [hst] at hlay
    obtain ⟨rfl, -⟩ := hlay
    split_ifs at hs with h
    · exact hw.suspendNext hst h hs
    · cases hs
      exact hw.suspendDone hst h
  · rename_i cause j all below hst
    rw [hst] at hlay
    simp only [NoneSkipped, hst] at hok
    split_ifs at hs with h
    · cases hs
      rw [dif_pos h] at hok
      exact hw.cancelNext hst h hok
    · obtain ⟨rfl, -⟩ := afterCancel_of_cancelled hs
      obtain ⟨rfl, -⟩ | ⟨rfl, -⟩ := hlay.cause
      · exact hw.cancelDone hst
      · exact hw.awaitCancelDone hst h
  · cases hs

/-! ### The other steps -/

/-- The loop that `await_cancel()` of a child's awaiter returns to. -/
theorem Whole.restacks_cancel {j k : ℕ} {cause : Cause} {all : Bool} {below : List Frame} (hw : Whole s)
    (hst : s.stack = .awaitCancel j :: .cancelLoop cause k all :: below) (now : Bool) :
    Restacks n s.muted s.stack (.cancelLoop cause k now :: below) := by
  have hlay := hw.form.layered
  rw [hst] at hlay ⊢
  exact .back hlay now

theorem Whole.clean_cancel {j k : ℕ} {cause : Cause} {all : Bool} {below : List Frame} (hw : Whole s)
    (hst : s.stack = .awaitCancel j :: .cancelLoop cause k all :: below) :
    Clean s.child (some j) (.cancelLoop cause k all :: below) := by
  have hclean := hw.outside.clean
  rw [hst] at hclean
  exact hclean

theorem Whole.cancelConfirmed {j : Fin n} {k : ℕ} {cause : Cause} {all : Bool} {below : List Frame}
    (hw : Whole s) (hst : s.stack = .awaitCancel j :: .cancelLoop cause k all :: below)
    (hc : s.child j = .cancelling) :
    Whole (({ s with stack := .cancelLoop cause k all :: below }.setState j .cancelled).muxInvoke
      minReady j none) := by
  have hj : (s.child j).terminal = false := by
    rw [hc]
    rfl
  have hdone : Clean (Function.update s.child j .cancelled) none (.cancelLoop cause k all :: below) :=
    ((hw.clean_cancel hst).mono (cancelled_of_update hj _)).back (j := j)
      fun hall => ⟨hall, Function.update_self _ _ _⟩
  exact hw.complete (by rw [hc]; rfl) hj (.cancelled hc) (hw.restacks_cancel hst all) hdone

theorem Whole.cancelRefused {j : Fin n} {k : ℕ} {cause : Cause} {all : Bool} {below : List Frame}
    (hw : Whole s) (hst : s.stack = .awaitCancel j :: .cancelLoop cause k all :: below) :
    Whole { s with stack := .cancelLoop cause k (all && decide (s.child j = .cancelled)) :: below } := by
  have hb := hw.form.bound_of_stack (by rw [hst]; exact List.cons_ne_nil _ _)
  refine hw.restack hb (hw.restacks_cancel hst _) ((hw.clean_cancel hst).back (j := j) fun hnow => ?_)
  rwa [Bool.and_eq_true, decide_eq_true_eq] at hnow

theorem Whole.suspendThrows {j : Fin n} {below : List Frame} {err : Err} (hw : Whole s)
    (hst : s.stack = .awaitSuspend j :: below)
    (hc : s.child j = .running ∨ s.child j = .cancelling) :
    Whole (({ s with stack := below }.setState j .failed).muxInvoke minReady j (some err)) := by
  have hlay := hw.form.layered
  have hclean := hw.outside.clean
  rw [hst] at hlay hclean
  have hact : (s.child j).active = true := by
    obtain hc | hc := hc <;> rw [hc] <;> rfl
  obtain ⟨hp, hj, -⟩ := HelperState.of_active hact
  exact hw.complete hp hj (.error err) (by rw [hst]; exact .suspended hlay)
    (Clean.mono (cancelled_of_update hj _) hclean)

theorem Whole.suspendReturns {j : ℕ} {below : List Frame} (hw : Whole s)
    (hst : s.stack = .awaitSuspend j :: below) : Whole { s with stack := below } := by
  have hb := hw.form.bound_of_stack (by rw [hst]; exact List.cons_ne_nil _ _)
  have hlay := hw.form.layered
  have hclean := hw.outside.clean
  rw [hst] at hlay hclean
  exact hw.restack hb (by rw [hst]; exact .suspended hlay) hclean

theorem Whole.awaitSuspend (hw : Whole s) (hb : s.bound = false) :
    Whole ({ s with bound := true }.enter (.suspendLoop 0)) := by
  obtain ⟨hst, hchild⟩ := hw.form.fresh hb
  have hlay := hw.form.layered
  have hcounted := hw.account.counted
  rw [hst] at hlay hcounted
  have hm : s.muted = false := hlay
  have howed : owed (.suspendLoop 0 :: s.stack) = 0 := by rw [hst]; rfl
  refine ⟨⟨fun j _ i _ => ?_, fun i _ _ => ⟨0, List.mem_cons_self, Nat.zero_le _⟩,
    fun h => (by cases h), ⟨hst, hm⟩, hw.form.unready⟩, ⟨?_, hw.account.resumed, hw.account.snapshots⟩,
    ⟨?_, fun hret => ?_, hw.outside.once, fun h =>
      ⟨(hw.outside.confirmed h).1, howed, (hw.outside.confirmed h).2.2⟩⟩, hw.invoked⟩
  · show (s.child i).pending = true
    rw [hchild i]
    rfl
  · show s.count + owed (.suspendLoop 0 :: s.stack) + 0 = nTerminal s.child
    rw [howed]
    exact hcounted
  · show Clean s.child none s.stack
    rw [hst]
    trivial
  · cases hw.outside.origin hret with
    | answered i hi => exact .answered i hi
    | outside hm' _ =>
      rw [hm] at hm'
      cases hm'
    | idle _ _ hq => exact .idle hm howed hq

/-- The parent cancels the mux, before it has been resumed. -/
theorem Whole.awaitCancel (hw : Whole s) (hb : s.bound = true) (hm : s.muted = false)
    (hok : CancelledOnce m s .awaitCancel) :
    Whole ({ s with muted := true }.enter (.cancelLoop .awaitCancel 0 true)) := by
  obtain ⟨hret, hnone, hloop, -⟩ := hok
  have hlay := hw.form.layered
  rw [hm] at hlay
  have hnot : (.awaitCancel, true) ∉ s.returned := by simp [hret]
  refine ⟨⟨fun k hk => hw.form.ahead k ?_, fun i hip hb => ?_, fun hb' => not_fresh hb hb',
    ⟨rfl, hlay, hloop⟩, hw.form.unready⟩, ⟨hw.account.counted, ?_, hw.account.snapshots⟩,
    ⟨fun _ i hi => absurd hi (Nat.not_lt_zero _), fun _ => ?_, fun _ => hret, fun h => absurd h hnot⟩,
    hw.invoked⟩
  · simpa [State.enter] using hk
  · obtain ⟨k, hk, hle⟩ := hw.form.behind i hip hb
    exact ⟨k, List.mem_cons_of_mem _ hk, hle⟩
  · show s.resumed.length = _
    rw [hnone, if_neg (by simp [State.silent, State.enter])]
    rfl
  · cases hw.outside.origin hret with
    | answered i hi => exact .answered i hi
    | outside hm' _ =>
      rw [hm] at hm'
      cases hm'
    | idle _ h _ => exact .outside rfl h

/-- The step lemma. -/
theorem Whole.step (hw : Whole s) {a : Action n V Err} (hok : CancelledOnce m s a)
    (hs : step m minReady s a = .ok t) : Whole t := by
  cases stepped_of_step hs with
  | earlyCancel => exact hok.elim
  | awaitCancel hb hm => exact hw.awaitCancel hb hm hok
  | awaitSuspend hb => exact hw.awaitSuspend hb
  | next h => exact hw.next hok h
  | resume _ _ h => exact hw.helperInvoke h
  | suspendReturns hst => exact hw.suspendReturns hst
  | suspendThrows hst hc => exact hw.suspendThrows hst hc
  | cancelConfirmed hst hc => exact hw.cancelConfirmed hst hc
  | cancelRefused hst => exact hw.cancelRefused hst

/-- The run lemma. -/
theorem whole_of_reach (hn : 0 < n)
    (hr : Reach (step m minReady) (CancelledOnce m) (.init : State n V Err) s) : Whole s :=
  hr.invariant (whole_init hn) fun _ _ _ hw hok hs => hw.step hok hs

end Corral.Mux
