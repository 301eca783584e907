import Corral.Mux.Steps

/-!
# `MuxBase::invoke()`: every child is counted once

The parent is resumed when `count_` reaches the number of children, so every child has to call
`MuxBase::invoke()` exactly once.  A child that `internalCancel()` cancels early while the loop of
`await_suspend()` has not got to it yet calls it twice: in `cancel()`, because it is bound, and
again in `suspend()`.

* `nTerminal`: the number of children in a terminal state;
* `owed`: the `invoke()` calls in progress, whose counts `internalCancel()` has put back;
* `NoneSkipped`: the condition of the runs in question, no child that has not been started
  agrees to being cancelled early once the mux itself is suspended;
* `Inv`: in such a run `count_` and what is owed add up to the terminal children.
-/

namespace Corral.Mux

open ActionMachine

variable {n : ℕ} {V Err : Type*} {m : Kind n} {minReady : ℕ} {s t : State n V Err}

/-- Before `await_suspend()` of the child's awaiter. -/
def HelperState.pending : HelperState → Bool
  | .notStarted => true
  | .cancellationPending => true
  | _ => false

theorem HelperState.not_terminal_of_pending {st : HelperState} (h : st.pending = true) :
    st.terminal = false := by
  cases st <;> simp_all [HelperState.pending, HelperState.terminal]

/-- After that, and before the child is done. -/
def HelperState.active : HelperState → Bool
  | .running => true
  | .cancelling => true
  | _ => false

theorem HelperState.of_active {st : HelperState} (h : st.active = true) :
    st.pending = false ∧ st.terminal = false ∧ st ≠ .ready := by
  cases st <;> simp_all [HelperState.active, HelperState.pending, HelperState.terminal]

/-- The number of children in a terminal state. -/
def nTerminal (c : Fin n → HelperState) : ℕ :=
  (Finset.univ.filter fun j => (c j).terminal = true).card

theorem nTerminal_le (c : Fin n → HelperState) : nTerminal c ≤ n := by
  have h := Finset.card_filter_le (Finset.univ : Finset (Fin n)) fun j => (c j).terminal = true
  rwa [Finset.card_univ, Fintype.card_fin] at h

theorem terminal_of_nTerminal_eq {c : Fin n → HelperState} (h : nTerminal c = n) (j : Fin n) :
    (c j).terminal = true := by
  have hcard : (Finset.univ.filter fun j => (c j).terminal = true).card =
      (Finset.univ : Finset (Fin n)).card := by
    rw [Finset.card_univ, Fintype.card_fin]
    exact h
  have huniv := (Finset.card_eq_iff_eq_univ _).1 (by rwa [Finset.card_univ] at hcard)
  have hj : j ∈ Finset.univ.filter fun j => (c j).terminal = true := by
    rw [huniv]
    exact Finset.mem_univ j
  exact (Finset.mem_filter.1 hj).2

/-- A child becomes terminal. -/
theorem nTerminal_update_terminal {c : Fin n → HelperState} {j : Fin n} {st : HelperState}
    (hj : (c j).terminal = false) (hst : st.terminal = true) :
    nTerminal (Function.update c j st) = nTerminal c + 1 := by
  have hset : (Finset.univ.filter fun i => (Function.update c j st i).terminal = true) =
      insert j (Finset.univ.filter fun i => (c i).terminal = true) := by
    ext i
    by_cases hi : i = j
    · subst hi
      simp [hst]
    · simp [hi]
  rw [nTerminal, hset, Finset.card_insert_of_notMem (by simp [hj]), nTerminal]

/-- A child changes and is terminal neither before nor after. -/
theorem nTerminal_update {c : Fin n → HelperState} {j : Fin n} {st : HelperState}
    (hj : (c j).terminal = false) (hst : st.terminal = false) :
    nTerminal (Function.update c j st) = nTerminal c := by
  unfold nTerminal
  congr 1
  ext i
  by_cases hi : i = j
  · subst hi
    simp [hj, hst]
  · simp [hi]

/-- The `invoke()` calls in progress. -/
def owed : List Frame → ℕ
  | [] => 0
  | .cancelLoop .invoke _ _ :: st => owed st + 1
  | _ :: st => owed st

/-- The loop of `await_suspend()` is at the bottom of the stack, nobody has cancelled the mux from
outside, and `await_cancel()` of a child is called by the loop of an `internalCancel()`. -/
def WellFormed (n : ℕ) : List Frame → Prop
  | [] => True
  | .suspendLoop _ :: st => st = []
  | .cancelLoop cause _ _ :: st => cause = .invoke ∧ WellFormed n st
  | .awaitSuspend _ :: st => WellFormed n st
  | .awaitCancel j :: st =>
    j < n ∧ (∃ cause k all below, st = .cancelLoop cause k all :: below) ∧ WellFormed n st

/-- Where the children stand with respect to the loop of `await_suspend()`. -/
structure Shape (s : State n V Err) : Prop where
  ahead : ∀ j, Frame.suspendLoop j ∈ s.stack → ∀ i : Fin n, j ≤ i → (s.child i).pending = true
  behind : ∀ i : Fin n, (s.child i).pending = true → s.bound = true →
    ∃ j, Frame.suspendLoop j ∈ s.stack ∧ j ≤ i
  fresh : s.bound = false → s.stack = [] ∧ ∀ i, s.child i = .notStarted
  wellFormed : WellFormed n s.stack
  unmuted : s.muted = false
  unready : ∀ i, s.child i ≠ .ready

/-- `count_`, what is owed and `extra` add up to the terminal children, and the parent has been
resumed if all children are counted. -/
structure Tally (extra : ℕ) (s : State n V Err) : Prop where
  counted : s.count + owed s.stack + extra = nTerminal s.child
  resumed : s.resumed.length = if s.count = n then 1 else 0
  snapshots : ∀ c ∈ s.resumed, ∀ j, (c j).terminal = true

/-- The invariant. -/
structure Inv (s : State n V Err) : Prop where
  shape : Shape s
  tally : Tally 0 s
  invoked : ∀ j, s.invoked j = if (s.child j).terminal then 1 else 0

theorem inv_init (hn : 0 < n) : Inv (State.init : State n V Err) := by
  have hne : (0 : ℕ) ≠ n := by omega
  refine ⟨⟨?_, ?_, ?_, ?_, ?_, ?_⟩, ⟨?_, ?_, ?_⟩, ?_⟩ <;>
    simp [State.init, owed, nTerminal, HelperState.terminal, WellFormed, hne]

/-! ### Counting -/

/-- `++count_`, and the resumption of the parent when that was the last child. -/
def State.advance (s : State n V Err) : State n V Err :=
  if s.count + 1 = n then { s with count := s.count + 1 }.resumeParent
  else { s with count := s.count + 1 }

theorem muxInvoke_cases (minReady : ℕ) (s : State n V Err) (j : Fin n) (err : Option Err) :
    ∃ u : State n V Err, u.child = s.child ∧ u.count = s.count ∧ u.stack = s.stack ∧
      u.bound = s.bound ∧ u.muted = s.muted ∧ u.resumed = s.resumed ∧
      u.invoked = Function.update s.invoked j (s.invoked j + 1) ∧
      (s.muxInvoke minReady j err = u.advance ∨
        s.muxInvoke minReady j err = u.enter (.cancelLoop .invoke 0 true)) := by
  refine ⟨{ s with
    error := if err.isSome && s.error.isNone then err else s.error
    invoked := Function.update s.invoked j (s.invoked j + 1) }, rfl, rfl, rfl, rfl, rfl, rfl, rfl,
    ?_⟩
  unfold State.muxInvoke State.advance
  by_cases hn : s.count + 1 = n
  · exact Or.inl (by simp only [if_pos hn])
  · by_cases hc : (err.isSome && s.error.isNone || s.count + 1 == minReady) = true
    · exact Or.inr (by simp only [if_neg hn, if_pos hc, Nat.add_sub_cancel])
    · exact Or.inl (by simp only [if_neg hn, if_neg hc])

theorem Tally.advance (ht : Tally 1 s) (hm : s.muted = false) : Tally 0 s.advance := by
  obtain ⟨hc, hr, hs⟩ := ht
  have hle := nTerminal_le s.child
  -- One terminal child is not counted yet, so the parent has not been resumed.
  have hne : s.count ≠ n := by omega
  rw [if_neg hne, List.length_eq_zero_iff] at hr
  unfold State.advance
  split_ifs with hn
  · have hall : nTerminal s.child = n := by omega
    simp only [State.resumeParent, hm, Bool.false_eq_true, if_false]
    refine ⟨by simpa [Nat.add_right_comm] using hc, by simp [hr, hn], fun c hmem => ?_⟩
    rw [hr, List.nil_append, List.mem_singleton] at hmem
    subst hmem
    exact terminal_of_nTerminal_eq hall
  · exact ⟨by simpa [Nat.add_right_comm] using hc, by simp [hr, hn], hs⟩

theorem Tally.owe (ht : Tally 1 s) : Tally 0 (s.enter (.cancelLoop .invoke 0 true)) :=
  ⟨ht.counted, ht.resumed, ht.snapshots⟩

/-- The fields that matter. -/
theorem Tally.congr {extra : ℕ} (ht : Tally extra s) (hc : t.child = s.child)
    (hn : t.count = s.count) (hst : owed t.stack = owed s.stack) (hr : t.resumed = s.resumed) :
    Tally extra t := by
  obtain ⟨h₁, h₂, h₃⟩ := ht
  refine ⟨?_, ?_, ?_⟩
  · rwa [hc, hn, hst]
  · rwa [hr, hn]
  · rwa [hr]

theorem Shape.congr (hs : Shape s) (hc : t.child = s.child) (hst : t.stack = s.stack)
    (hb : t.bound = s.bound) (hm : t.muted = s.muted) : Shape t := by
  obtain ⟨h₁, h₂, h₃, h₄, h₅, h₆⟩ := hs
  refine ⟨?_, ?_, ?_, ?_, ?_, ?_⟩
  · rwa [hc, hst]
  · rwa [hc, hst, hb]
  · rwa [hc, hst, hb]
  · rwa [hst]
  · rwa [hm]
  · rwa [hc]

/-- Nothing is known of a fresh mux once the mux is suspended. -/
theorem not_fresh {P : Prop} (hb : s.bound = true) (h : s.bound = false) : P := by
  rw [hb] at h
  cases h

/-- Entering a call other than `await_suspend()` of the mux. -/
theorem Shape.enter (hs : Shape s) (hb : s.bound = true) {f : Frame}
    (hf : WellFormed n (f :: s.stack)) (hloop : ∀ j, f ≠ .suspendLoop j) : Shape (s.enter f) := by
  refine ⟨fun j hj => ?_, fun i hi hbound => ?_, fun hbound => ?_, hf, hs.unmuted, hs.unready⟩
  · rcases List.mem_cons.1 hj with hj | hj
    · exact absurd hj.symm (hloop j)
    · exact hs.ahead j hj
  · obtain ⟨j, hj, hle⟩ := hs.behind i hi hbound
    exact ⟨j, List.mem_cons_of_mem _ hj, hle⟩
  · exact not_fresh hb hbound

theorem advance_frame (s : State n V Err) :
    s.advance.child = s.child ∧ s.advance.stack = s.stack ∧ s.advance.bound = s.bound ∧
    s.advance.muted = s.muted ∧ s.advance.invoked = s.invoked := by
  unfold State.advance State.resumeParent
  split_ifs <;> exact ⟨rfl, rfl, rfl, rfl, rfl⟩

/-- `MuxBase::invoke()` counts a child that has become terminal. -/
theorem Inv.muxInvoke {j : Fin n} {err : Option Err} (hs : Shape s) (ht : Tally 1 s)
    (hb : s.bound = true)
    (hi : ∀ i, s.invoked i + (if i = j then 1 else 0) = if (s.child i).terminal then 1 else 0) :
    Inv (s.muxInvoke minReady j err) := by
  obtain ⟨u, hc, hcount, hst, hbound, hmuted, hres, hinv, hu⟩ :=
    muxInvoke_cases minReady s j err
  have hsu : Shape u := hs.congr hc hst hbound hmuted
  have htu : Tally 1 u := ht.congr hc hcount (by rw [hst]) hres
  have hiu : ∀ i, u.invoked i = if (u.child i).terminal then 1 else 0 := by
    intro i
    rw [hinv, hc, ← hi i, Function.update_apply]
    split_ifs with h
    · rw [h]
    · rfl
  rcases hu with hu | hu
  · obtain ⟨hac, hast, hab, ham, hai⟩ := advance_frame u
    rw [hu]
    refine ⟨hsu.congr hac hast hab ham, htu.advance hsu.unmuted, fun i => ?_⟩
    rw [hai, hac]
    exact hiu i
  · rw [hu]
    exact ⟨hsu.enter (hbound.trans hb) ⟨rfl, hsu.wellFormed⟩ (fun _ => by simp), htu.owe, hiu⟩

/-! ### Children -/

/-- A child changes its state, and has been started before and after, or neither. -/
theorem Shape.setState (hs : Shape s) (hb : s.bound = true) {j : Fin n} {st : HelperState}
    (hst : st.pending = (s.child j).pending) (hne : st ≠ .ready) : Shape (s.setState j st) := by
  have hchild : ∀ i, ((s.setState j st).child i).pending = (s.child i).pending := by
    intro i
    simp only [State.setState, Function.update_apply]
    split_ifs with h
    · rw [h, hst]
    · rfl
  refine ⟨fun k hk i hi => ?_, fun i hi hb => ?_, fun hb' => ?_, hs.wellFormed, hs.unmuted,
    fun i => ?_⟩
  · rw [hchild]
    exact hs.ahead k hk i hi
  · rw [hchild] at hi
    exact hs.behind i hi hb
  · exact not_fresh hb hb'
  · simp only [State.setState, Function.update_apply]
    split_ifs
    · exact hne
    · exact hs.unready i

theorem Shape.bound_of_started (hs : Shape s) {j : Fin n} (hp : (s.child j).pending = false) :
    s.bound = true := by
  by_contra h
  rw [((hs.fresh (by simpa using h)).2 j)] at hp
  cases hp

theorem Shape.bound_of_stack (hs : Shape s) (hne : s.stack ≠ []) : s.bound = true := by
  by_contra h
  exact hne (hs.fresh (by simpa using h)).1

/-- A child that has been started becomes terminal and is counted. -/
theorem Inv.complete (hi : Inv s) {j : Fin n} (st : HelperState) {err : Option Err}
    (hp : (s.child j).pending = false) (hj : (s.child j).terminal = false)
    (hst : st.terminal = true) {u : State n V Err} (hu : u = { s.setState j st with
      storage := u.storage }) : Inv (u.muxInvoke minReady j err) := by
  have hstp : st.pending = false := by
    cases h : st.pending with
    | false => rfl
    | true => rw [HelperState.not_terminal_of_pending h] at hst; cases hst
  have hb := hi.shape.bound_of_started hp
  have hchild : u.child = Function.update s.child j st := by rw [hu]; rfl
  have hshape : Shape u := by
    have hset : Shape (s.setState j st) :=
      hi.shape.setState hb (hstp.trans hp.symm) (by rintro rfl; cases hst)
    exact hset.congr (by rw [hu]) (by rw [hu]) (by rw [hu]) (by rw [hu])
  have htally : Tally 1 u := by
    obtain ⟨hc, hr, hs⟩ := hi.tally
    refine ⟨?_, ?_, ?_⟩
    · rw [hchild, nTerminal_update_terminal hj hst, ← hc, hu]
      rfl
    · rw [hu]
      exact hr
    · rw [hu]
      exact hs
  refine Inv.muxInvoke hshape htally (by rw [hu]; exact hb) fun i => ?_
  have hinv : u.invoked = s.invoked := by rw [hu]; rfl
  rw [hinv, hchild, hi.invoked i, Function.update_apply]
  by_cases h : i = j
  · subst h
    simp [hj, hst]
  · simp [h]

/-- A child changes its state and is terminal neither before nor after. -/
theorem Inv.setState (hi : Inv s) {j : Fin n} {st : HelperState} (hs : Shape (s.setState j st))
    (hj : (s.child j).terminal = false) (hst : st.terminal = false) : Inv (s.setState j st) := by
  refine ⟨hs, ⟨?_, hi.tally.resumed, hi.tally.snapshots⟩, fun i => ?_⟩
  · show s.count + owed s.stack + 0 = nTerminal (Function.update s.child j st)
    rw [nTerminal_update hj hst]
    exact hi.tally.counted
  · show s.invoked i = if (Function.update s.child j st i).terminal then 1 else 0
    rw [hi.invoked i, Function.update_apply]
    split_ifs with h₁ h₂ h₃ h₃
    all_goals simp_all

/-- The calls in progress change, but neither the loop of `await_suspend()` nor what is owed. -/
theorem Inv.restack (hi : Inv s) (hb : s.bound = true) {st : List Frame}
    (howed : owed st = owed s.stack)
    (hloop : ∀ j, Frame.suspendLoop j ∈ st ↔ Frame.suspendLoop j ∈ s.stack)
    (hw : WellFormed n st) : Inv { s with stack := st } := by
  obtain ⟨hshape, htally, hinv⟩ := hi
  refine ⟨⟨fun j hj => hshape.ahead j ((hloop j).1 hj), fun i hi hb => ?_, fun hb' => ?_, hw,
    hshape.unmuted, hshape.unready⟩, htally.congr rfl rfl howed rfl, hinv⟩
  · obtain ⟨j, hj, hle⟩ := hshape.behind i hi hb
    exact ⟨j, (hloop j).2 hj, hle⟩
  · exact not_fresh hb hb'

theorem helperInvoke_cases {j : Fin n} {ans : Answers V Err}
    (hs : s.helperInvoke minReady j ans = .ok t) :
    ((s.child j).pending = false ∧ (s.child j).terminal = false) ∧
    ∃ (u : State n V Err) (st : HelperState) (err : Option Err), st.terminal = true ∧
      u = { s.setState j st with storage := u.storage } ∧ t = u.muxInvoke minReady j err := by
  have hreport : ∃ (u : State n V Err) (st : HelperState) (err : Option Err),
      st.terminal = true ∧ u = { s.setState j st with storage := u.storage } ∧
      s.reportResult minReady j ans = u.muxInvoke minReady j err := by
    unfold State.reportResult
    split
    · exact ⟨_, .succeeded, none, rfl, rfl, rfl⟩
    · exact ⟨_, .failed, some _, rfl, rfl, rfl⟩
  unfold State.helperInvoke at hs
  split at hs
  · rename_i hc
    refine ⟨by simp [hc, HelperState.pending, HelperState.terminal], ?_⟩
    split_ifs at hs
    · cases hs; exact hreport
    · cases hs; exact ⟨s.setState j .cancelled, .cancelled, none, rfl, rfl, rfl⟩
  · rename_i hc
    cases hs
    exact ⟨by simp [hc, HelperState.pending, HelperState.terminal], hreport⟩
  · rename_i hc
    cases hs
    exact ⟨by simp [hc, HelperState.pending, HelperState.terminal], hreport⟩
  · cases hs

theorem Inv.helperInvoke (hi : Inv s) {j : Fin n} {ans : Answers V Err}
    (hs : s.helperInvoke minReady j ans = .ok t) : Inv t := by
  obtain ⟨⟨hp, hj⟩, u, st, err, hst, hu, rfl⟩ := helperInvoke_cases hs
  exact hi.complete st hp hj hst hu

/-! ### The loops -/

/-- Once the mux is suspended, no child that has not been started agrees to being cancelled
early; and the mux is not cancelled from outside. -/
def NoneSkipped (s : State n V Err) : Action n V Err → Prop
  | .earlyCancel => False
  | .awaitCancel => False
  | .next ans => match s.stack with
    | .cancelLoop _ j _ :: _ =>
      if h : j < n then s.child ⟨j, h⟩ = .notStarted → ans.earlyCancel = false else True
    | _ => True
  | _ => True

instance (s : State n V Err) : (a : Action n V Err) → Decidable (NoneSkipped s a)
  | .earlyCancel => instDecidableFalse
  | .awaitCancel => instDecidableFalse
  | .next ans => match h : s.stack with
    | .cancelLoop cause j all :: below => by
      simp only [NoneSkipped, h]
      infer_instance
    | [] => isTrue (by simp [NoneSkipped, h])
    | .suspendLoop _ :: _ => isTrue (by simp [NoneSkipped, h])
    | .awaitSuspend _ :: _ => isTrue (by simp [NoneSkipped, h])
    | .awaitCancel _ :: _ => isTrue (by simp [NoneSkipped, h])
  | .awaitSuspend => instDecidableTrue
  | .resume _ _ => instDecidableTrue
  | .suspendReturns => instDecidableTrue
  | .suspendThrows _ => instDecidableTrue
  | .cancelReturns _ => instDecidableTrue

theorem suspend_cases {j : Fin n} {ans : Answers V Err}
    (hs : s.suspend minReady j ans = .ok t) :
    (∃ st : HelperState, st.active = true ∧
      ((s.setState j st).helperInvoke minReady j ans = .ok t ∨
        t = (s.setState j st).enter (.awaitSuspend j))) ∨
    (s.child j = .cancelled ∧ t = s.muxInvoke minReady j none) := by
  have hkick : s.kickOff minReady j ans = .ok t →
      ∃ st : HelperState, st.active = true ∧
        ((s.setState j st).helperInvoke minReady j ans = .ok t ∨
          t = (s.setState j st).enter (.awaitSuspend j)) := by
    intro h
    refine ⟨if s.child j = .cancellationPending then .cancelling else .running, ?_, ?_⟩
    · split_ifs <;> rfl
    · unfold State.kickOff at h
      by_cases hr : ans.ready = true
      · rw [if_pos hr] at h
        exact Or.inl h
      · rw [if_neg hr] at h
        cases h
        exact Or.inr rfl
  unfold State.suspend at hs
  split at hs
  · exact Or.inl (hkick hs)
  · exact Or.inl (hkick hs)
  · rename_i hc
    cases hs
    exact Or.inr ⟨hc, rfl⟩
  · cases hs

/-- A child is started, and the loop of `await_suspend()` is ahead of it. -/
theorem Inv.started (hi : Inv s) {j : ℕ} (hst : s.stack = [.suspendLoop j]) (h : j < n)
    {st : HelperState} (hact : st.active = true) :
    Inv ({ s with stack := [.suspendLoop (j + 1)] }.setState ⟨j, h⟩ st) := by
  obtain ⟨hsp, hterm, hready⟩ := HelperState.of_active hact
  have hmem : ∀ k, Frame.suspendLoop k ∈ s.stack ↔ k = j := fun k => by simp [hst]
  have hpend := hi.shape.ahead j ((hmem j).2 rfl) ⟨j, h⟩ le_rfl
  have hb := hi.shape.bound_of_stack (by rw [hst]; exact List.cons_ne_nil _ _)
  have hnot := HelperState.not_terminal_of_pending hpend
  have hchild : ∀ i : Fin n, i ≠ ⟨j, h⟩ →
      ({ s with stack := [.suspendLoop (j + 1)] }.setState ⟨j, h⟩ st).child i = s.child i :=
    fun i hi => Function.update_of_ne hi _ _
  refine ⟨⟨fun k hk i hki => ?_, fun i hip _ => ?_, fun hb' => ?_, rfl, hi.shape.unmuted,
    fun i => ?_⟩, ⟨?_, hi.tally.resumed, hi.tally.snapshots⟩, fun i => ?_⟩
  · have hkj : k = j + 1 := by simpa [State.setState] using hk
    have hne : i ≠ ⟨j, h⟩ := fun he => by
      have : i.val = j := congrArg Fin.val he
      omega
    rw [hchild i hne]
    exact hi.shape.ahead j ((hmem j).2 rfl) i (by omega)
  · have hne : i ≠ ⟨j, h⟩ := by
      rintro rfl
      have hst' : st.pending = true := by simpa [State.setState] using hip
      rw [hsp] at hst'
      cases hst'
    rw [hchild i hne] at hip
    obtain ⟨k, hk, hle⟩ := hi.shape.behind i hip hb
    have hkj := (hmem k).1 hk
    have hij : i.val ≠ j := fun he => hne (Fin.ext he)
    exact ⟨j + 1, List.mem_singleton.2 rfl, by omega⟩
  · exact not_fresh hb hb'
  · by_cases hij : i = ⟨j, h⟩
    · simpa [State.setState, hij] using hready
    · rw [hchild i hij]
      exact hi.shape.unready i
  · have hc := hi.tally.counted
    rw [hst] at hc
    show s.count + owed [.suspendLoop (j + 1)] + 0 = nTerminal (Function.update s.child _ st)
    rw [nTerminal_update hnot hterm]
    exact hc
  · show s.invoked i = if (Function.update s.child ⟨j, h⟩ st i).terminal then 1 else 0
    rw [hi.invoked i, Function.update_apply]
    by_cases hij : i = ⟨j, h⟩
    · rw [hij, if_pos rfl, hnot, hterm]
    · rw [if_neg hij]

/-- The loop of `await_suspend()` gets to the next child. -/
theorem Inv.suspendNext (hi : Inv s) {j : ℕ} (hst : s.stack = [.suspendLoop j]) (h : j < n)
    {ans : Answers V Err}
    (hs : { s with stack := [.suspendLoop (j + 1)] }.suspend minReady ⟨j, h⟩ ans = .ok t) :
    Inv t := by
  rcases suspend_cases hs with ⟨st, hact, hcase⟩ | ⟨hc, -⟩
  · have hstarted := hi.started hst h hact
    rcases hcase with hinvoke | rfl
    · exact hstarted.helperInvoke hinvoke
    · have hb := hi.shape.bound_of_stack (by rw [hst]; exact List.cons_ne_nil _ _)
      exact hstarted.restack hb rfl (fun k => by simp [State.setState]) hstarted.shape.wellFormed
  · -- The second report of a cancelled child, which the condition of the run excludes.
    have hpend := hi.shape.ahead j (by rw [hst]; exact List.mem_singleton.2 rfl) ⟨j, h⟩ le_rfl
    have hc' : s.child ⟨j, h⟩ = .cancelled := hc
    rw [hc'] at hpend
    cases hpend

/-- The loop of `await_suspend()` ends. -/
theorem Inv.suspendDone (hi : Inv s) {j : ℕ} (hst : s.stack = [.suspendLoop j]) (h : ¬ j < n) :
    Inv { s with stack := [] } := by
  have hb := hi.shape.bound_of_stack (by rw [hst]; exact List.cons_ne_nil _ _)
  refine ⟨⟨fun k hk => (by cases hk), fun i hip _ => ?_, fun hb' => ?_, trivial,
    hi.shape.unmuted, hi.shape.unready⟩, hi.tally.congr rfl rfl (by rw [hst]; rfl) rfl, hi.invoked⟩
  · obtain ⟨k, hk, hle⟩ := hi.shape.behind i hip hb
    rw [hst] at hk
    cases List.mem_singleton.1 hk
    omega
  · exact not_fresh hb hb'

/-- The loop of `internalCancel()` gets to the next child, which has been started or refuses to
be cancelled early. -/
theorem Inv.cancelNext (hi : Inv s) {j : ℕ} {all : Bool} {below : List Frame}
    (hst : s.stack = .cancelLoop .invoke j all :: below) (h : j < n) {ans : Answers V Err}
    (hok : s.child ⟨j, h⟩ = .notStarted → ans.earlyCancel = false) :
    Inv ({ s with stack := below }.cancel minReady .invoke all ⟨j, h⟩ ans) := by
  have hb := hi.shape.bound_of_stack (by rw [hst]; exact List.cons_ne_nil _ _)
  have hw := hi.shape.wellFormed
  rw [hst] at hw
  have hloop : ∀ b, Inv ({ s with stack := below }.enter (.cancelLoop .invoke (j + 1) b)) :=
    fun b => hi.restack hb (by rw [hst]; rfl) (fun k => by simp [hst]) ⟨rfl, hw.2⟩
  unfold State.cancel
  split
  · rename_i hc
    have hc' : s.child ⟨j, h⟩ = .notStarted := hc
    rw [hok hc']
    refine (hloop _).setState ((hloop _).shape.setState hb ?_ HelperState.noConfusion) ?_ rfl
    · show HelperState.pending .cancellationPending = (s.child ⟨j, h⟩).pending
      rw [hc']
      rfl
    · show (s.child ⟨j, h⟩).terminal = false
      rw [hc']
      rfl
  · rename_i hc
    have hc' : s.child ⟨j, h⟩ = .running := hc
    have hset : Inv (({ s with stack := below }.enter
        (.cancelLoop .invoke (j + 1) (all && true))).setState ⟨j, h⟩ .cancelling) := by
      refine (hloop _).setState ((hloop _).shape.setState hb ?_ HelperState.noConfusion) ?_ rfl
      · show HelperState.pending .cancelling = (s.child ⟨j, h⟩).pending
        rw [hc']
        rfl
      · show (s.child ⟨j, h⟩).terminal = false
        rw [hc']
        rfl
    exact hset.restack hb rfl (fun k => by simp) ⟨h, ⟨_, _, _, _, rfl⟩, hset.shape.wellFormed⟩
  · exact hloop _
  · exact hloop _

/-- `internalCancel()` returns to `invoke()`. -/
theorem Inv.cancelDone (hi : Inv s) {j : ℕ} {all : Bool} {below : List Frame}
    (hst : s.stack = .cancelLoop .invoke j all :: below) :
    Inv ({ s with stack := below }.afterCancel .invoke all) := by
  have hb := hi.shape.bound_of_stack (by rw [hst]; exact List.cons_ne_nil _ _)
  have hw := hi.shape.wellFormed
  rw [hst] at hw
  have hshape : Shape { s with stack := below } := by
    refine ⟨fun k hk => hi.shape.ahead k ?_, fun i hip hb => ?_, fun hb' => ?_, hw.2,
      hi.shape.unmuted, hi.shape.unready⟩
    · rw [hst]
      exact List.mem_cons_of_mem _ hk
    · obtain ⟨k, hk, hle⟩ := hi.shape.behind i hip hb
      rw [hst] at hk
      exact ⟨k, by simpa using hk, hle⟩
    · exact not_fresh hb hb'
  -- What the frame owed is now counted.
  have htally : Tally 1 { s with stack := below } := by
    obtain ⟨hc, hr, hsnap⟩ := hi.tally
    rw [hst] at hc
    exact ⟨hc, hr, hsnap⟩
  obtain ⟨hac, hast, hab, ham, hai⟩ := advance_frame { s with stack := below }
  refine ⟨hshape.congr hac hast hab ham, htally.advance hshape.unmuted, fun i => ?_⟩
  show State.invoked (State.advance _) i =
    if (State.child (State.advance _) i).terminal then 1 else 0
  rw [hai, hac]
  exact hi.invoked i

theorem Inv.next (hi : Inv s) {ans : Answers V Err} (hok : NoneSkipped s (.next ans))
    (hs : s.next m minReady ans = .ok t) : Inv t := by
  have hw := hi.shape.wellFormed
  unfold State.next at hs
  split at hs
  · rename_i j below hst
    rw [hst] at hw
    have hbelow : below = [] := hw
    subst hbelow
    split_ifs at hs with h
    · exact hi.suspendNext hst h hs
    · cases hs
      exact hi.suspendDone hst h
  · rename_i cause j all below hst
    rw [hst] at hw
    obtain ⟨rfl, -⟩ := hw
    simp only [NoneSkipped, hst] at hok
    split_ifs at hs with h
    · cases hs
      rw [dif_pos h] at hok
      exact hi.cancelNext hst h hok
    · obtain ⟨rfl, -⟩ := afterCancel_of_cancelled hs
      exact hi.cancelDone hst
  · cases hs

/-! ### The other steps -/

/-- `await_cancel()` of a child's awaiter has returned to the loop. -/
theorem Inv.popCancel {j k : ℕ} {cause : Cause} {all : Bool} {below : List Frame} (hi : Inv s)
    (hst : s.stack = .awaitCancel j :: .cancelLoop cause k all :: below) (now : Bool) :
    Inv { s with stack := .cancelLoop cause k now :: below } := by
  have hb := hi.shape.bound_of_stack (by rw [hst]; exact List.cons_ne_nil _ _)
  have hw : WellFormed n (.cancelLoop cause k all :: below) := by
    have hw := hi.shape.wellFormed
    rw [hst] at hw
    exact hw.2.2
  obtain ⟨rfl, hbelow⟩ := hw
  exact hi.restack hb (by rw [hst]; rfl) (fun i => by simp [hst]) ⟨rfl, hbelow⟩

theorem Inv.cancelConfirmed {j : Fin n} {k : ℕ} {cause : Cause} {all : Bool} {below : List Frame}
    (hi : Inv s) (hst : s.stack = .awaitCancel j :: .cancelLoop cause k all :: below)
    (hc : s.child j = .cancelling) :
    Inv (({ s with stack := .cancelLoop cause k all :: below }.setState j .cancelled).muxInvoke
      minReady j none) := by
  refine (hi.popCancel hst all).complete .cancelled ?_ ?_ rfl rfl
  · show (s.child j).pending = false
    rw [hc]
    rfl
  · show (s.child j).terminal = false
    rw [hc]
    rfl

/-- `await_suspend()` of a child's awaiter has returned to the loop, or to the child. -/
theorem Inv.popSuspend {j : ℕ} {below : List Frame} (hi : Inv s)
    (hst : s.stack = .awaitSuspend j :: below) : Inv { s with stack := below } := by
  have hb := hi.shape.bound_of_stack (by rw [hst]; exact List.cons_ne_nil _ _)
  have hw := hi.shape.wellFormed
  rw [hst] at hw
  exact hi.restack hb (by rw [hst]; rfl) (fun i => by simp [hst]) hw

theorem Inv.suspendThrows {j : Fin n} {below : List Frame} {err : Err} (hi : Inv s)
    (hst : s.stack = .awaitSuspend j :: below)
    (hc : s.child j = .running ∨ s.child j = .cancelling) :
    Inv (({ s with stack := below }.setState j .failed).muxInvoke minReady j (some err)) := by
  refine (hi.popSuspend hst).complete .failed ?_ ?_ rfl rfl
  · show (s.child j).pending = false
    rcases hc with hc | hc <;> rw [hc] <;> rfl
  · show (s.child j).terminal = false
    rcases hc with hc | hc <;> rw [hc] <;> rfl

theorem Inv.awaitSuspend (hi : Inv s) (hb : s.bound = false) :
    Inv ({ s with bound := true }.enter (.suspendLoop 0)) := by
  obtain ⟨hst, hchild⟩ := hi.shape.fresh hb
  have hc := hi.tally.counted
  rw [hst] at hc
  refine ⟨⟨fun j _ i _ => ?_, fun i _ _ => ⟨0, List.mem_cons_self, Nat.zero_le _⟩,
    fun h => (by cases h), hst, hi.shape.unmuted, hi.shape.unready⟩,
    ⟨?_, hi.tally.resumed, hi.tally.snapshots⟩, hi.invoked⟩
  · show (s.child i).pending = true
    rw [hchild i]
    rfl
  · show s.count + owed (.suspendLoop 0 :: s.stack) + 0 = nTerminal s.child
    rw [hst]
    exact hc

/-- The step lemma. -/
theorem Inv.step (hi : Inv s) {a : Action n V Err} (hok : NoneSkipped s a)
    (hs : step m minReady s a = .ok t) : Inv t := by
  cases stepped_of_step hs with
  | earlyCancel => exact hok.elim
  | awaitCancel => exact hok.elim
  | awaitSuspend hb => exact hi.awaitSuspend hb
  | next h => exact hi.next hok h
  | resume _ _ h => exact hi.helperInvoke h
  | suspendReturns hst => exact hi.popSuspend hst
  | suspendThrows hst hc => exact hi.suspendThrows hst hc
  | cancelConfirmed hst hc => exact hi.cancelConfirmed hst hc
  | cancelRefused hst => exact hi.popCancel hst _

/-- The run lemma. -/
theorem inv_of_reach (hn : 0 < n)
    (hr : Reach (step m minReady) NoneSkipped (.init : State n V Err) s) : Inv s :=
  hr.invariant (inv_init hn) fun _ _ _ hi hok hs => hi.step hok hs

end Corral.Mux
