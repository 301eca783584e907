import Corral.Mux.Counting

/-!
# Every run of a mux comes to an end, with the parent resumed

A child that is done may start one more `internalCancel()` over all children, and there are only so
many children.

* `State.remaining`: a bound on the number of steps that are left;
* `remaining_lt`: every step of the runs in question lowers it;
* `exists_step`: a mux that is not `Over` can go on;
* `parent_resumed_once`: so the parent is resumed exactly once, when all children are terminal.
-/

namespace Corral.Mux

open ActionMachine

variable {n : ℕ} {V Err : Type*} {m : Kind n} {minReady : ℕ} {s t : State n V Err}

/-! ### The number of steps that are left -/

/-- The steps that a child may still cause: its own ones, and the loop of an `internalCancel()` when
it is done. -/
def HelperState.weight (n : ℕ) : HelperState → ℕ
  | .notStarted => n + 5
  | .cancellationPending => n + 5
  | .running => n + 4
  | .cancelling => n + 3
  | .ready => n + 3
  | .cancelled => 0
  | .succeeded => 0
  | .failed => 0

/-- The steps that a call in progress still takes. -/
def Frame.weight (n : ℕ) : Frame → ℕ
  | .suspendLoop j => n - j + 1
  | .cancelLoop _ j _ => n - j + 1
  | .awaitSuspend _ => 1
  | .awaitCancel _ => 1

/-- A bound on the number of steps that are left. -/
def State.remaining (s : State n V Err) : ℕ :=
  (bif s.bound then 0 else n + 2) + ∑ j, (s.child j).weight n + (s.stack.map (Frame.weight n)).sum

theorem HelperState.weight_of_terminal {st : HelperState} (h : st.terminal = true) :
    st.weight n = 0 := by
  cases st <;> simp_all [HelperState.terminal, HelperState.weight]

theorem HelperState.le_weight {st : HelperState} (h : st.terminal = false) :
    n + 3 ≤ st.weight n := by
  cases st <;> simp_all [HelperState.terminal, HelperState.weight]

theorem HelperState.weight_le_of_active {st : HelperState} (h : st.active = true) :
    st.weight n ≤ n + 4 := by
  cases st <;> simp_all [HelperState.active, HelperState.weight]

theorem HelperState.weight_of_pending {st : HelperState} (h : st.pending = true) :
    st.weight n = n + 5 := by
  cases st <;> simp_all [HelperState.pending, HelperState.weight]

theorem remaining_init : (State.init : State n V Err).remaining = n * (n + 5) + n + 2 := by
  simp [State.remaining, State.init, HelperState.weight]
  omega

theorem remaining_congr (hc : t.child = s.child) (hst : t.stack = s.stack)
    (hb : t.bound = s.bound) : t.remaining = s.remaining := by
  simp only [State.remaining, hc, hst, hb]

theorem remaining_enter (s : State n V Err) (f : Frame) :
    (s.enter f).remaining = s.remaining + f.weight n := by
  simp only [State.remaining, State.enter, List.map_cons, List.sum_cons]
  omega

theorem remaining_pop {f : Frame} {below : List Frame} (hst : s.stack = f :: below) :
    s.remaining = { s with stack := below }.remaining + f.weight n := by
  simp only [State.remaining, hst, List.map_cons, List.sum_cons]
  omega

theorem remaining_setState (s : State n V Err) (j : Fin n) (st : HelperState) :
    (s.setState j st).remaining + (s.child j).weight n = s.remaining + st.weight n := by
  have hbefore := Finset.add_sum_erase Finset.univ (fun i => (s.child i).weight n)
    (Finset.mem_univ j)
  have hafter := Finset.add_sum_erase Finset.univ
    (fun i => (Function.update s.child j st i).weight n) (Finset.mem_univ j)
  have hrest : ∑ i ∈ Finset.univ.erase j, (Function.update s.child j st i).weight n =
      ∑ i ∈ Finset.univ.erase j, (s.child i).weight n := by
    refine Finset.sum_congr rfl fun i hi => ?_
    rw [Function.update_of_ne (Finset.ne_of_mem_erase hi)]
  rw [hrest] at hafter
  simp only [Function.update_self] at hafter
  simp only [State.remaining, State.setState]
  omega

/-- `MuxBase::invoke()` may start another `internalCancel()`. -/
theorem remaining_muxInvoke (minReady : ℕ) (s : State n V Err) (j : Fin n) (err : Option Err) :
    (s.muxInvoke minReady j err).remaining ≤ s.remaining + (n + 1) := by
  obtain ⟨u, hc, -, hst, hb, -, -, -, hu⟩ := muxInvoke_cases minReady s j err
  have hsu : u.remaining = s.remaining := remaining_congr hc hst hb
  rcases hu with hu | hu
  · obtain ⟨hac, hast, hab, -, -⟩ := advance_frame u
    rw [hu, remaining_congr hac hast hab, hsu]
    omega
  · rw [hu, remaining_enter, hsu]
    simp [Frame.weight]

/-- A child that is done pays for what `MuxBase::invoke()` starts. -/
theorem remaining_complete {j : Fin n} (st : HelperState) {err : Option Err}
    (hj : (s.child j).terminal = false) (hst : st.terminal = true) {u : State n V Err}
    (hu : u = { s.setState j st with storage := u.storage }) :
    (u.muxInvoke minReady j err).remaining < s.remaining := by
  have hinvoke := remaining_muxInvoke minReady u j err
  have hset := remaining_setState s j st
  have heq : u.remaining = (s.setState j st).remaining :=
    remaining_congr (by rw [hu]) (by rw [hu]) (by rw [hu])
  have hle := HelperState.le_weight (n := n) hj
  rw [HelperState.weight_of_terminal hst] at hset
  omega

theorem remaining_helperInvoke {j : Fin n} {ans : Answers V Err}
    (hs : s.helperInvoke minReady j ans = .ok t) : t.remaining < s.remaining := by
  obtain ⟨⟨-, hj⟩, u, st, err, hst, hu, rfl⟩ := helperInvoke_cases hs
  exact remaining_complete st hj hst hu

/-! ### One step -/

theorem remaining_suspend {j : Fin n} {ans : Answers V Err} (hp : (s.child j).pending = true)
    (hs : s.suspend minReady j ans = .ok t) : t.remaining ≤ s.remaining := by
  have hweight := HelperState.weight_of_pending (n := n) hp
  rcases suspend_cases hs with ⟨st, hact, hcase⟩ | ⟨hc, -⟩
  · have hset := remaining_setState s j st
    have hle := HelperState.weight_le_of_active (n := n) hact
    rcases hcase with hinvoke | rfl
    · have hlt := remaining_helperInvoke hinvoke
      omega
    · rw [remaining_enter]
      simp only [Frame.weight]
      omega
  · rw [hc] at hp
    cases hp

/-- The loop of `internalCancel()` that was at the child `j` is at the next one. -/
theorem remaining_cancel (cause : Cause) (all : Bool) (j : Fin n) (ans : Answers V Err) :
    (s.cancel minReady cause all j ans).remaining ≤ s.remaining + (n - j) := by
  have hloop : ∀ b, (s.enter (.cancelLoop cause (j + 1) b)).remaining = s.remaining + (n - j) := by
    intro b
    rw [remaining_enter]
    simp only [Frame.weight]
    omega
  have hset : ∀ b st, ((s.enter (.cancelLoop cause (j + 1) b)).setState j st).remaining +
      (s.child j).weight n = s.remaining + (n - j) + st.weight n := by
    intro b st
    rw [← hloop b]
    exact remaining_setState _ j st
  simp only [State.cancel]
  split
  · rename_i hc
    rw [hc] at hset
    split_ifs
    · have hinvoke := remaining_muxInvoke minReady
        ((s.enter (.cancelLoop cause (j + 1) (all && true))).setState j .cancelled) j none
      have hcancelled := hset (all && true) .cancelled
      simp only [HelperState.weight] at hcancelled
      omega
    · have hcancelled := hset (all && true) .cancelled
      simp only [HelperState.weight] at hcancelled
      omega
    · have hpending := hset (all && false) .cancellationPending
      simp only [HelperState.weight] at hpending
      omega
  · rename_i hc
    have hcancelling := hset (all && true) .cancelling
    rw [hc] at hcancelling
    rw [remaining_enter]
    simp only [HelperState.weight, Frame.weight] at hcancelling ⊢
    omega
  · exact (hloop _).le
  · exact (hloop _).le

theorem remaining_next (hi : Inv s) {ans : Answers V Err} (hs : s.next m minReady ans = .ok t) :
    t.remaining < s.remaining := by
  have hw := hi.shape.wellFormed
  unfold State.next at hs
  split at hs
  · rename_i j below hst
    have hpop := remaining_pop hst
    simp only [Frame.weight] at hpop
    split_ifs at hs with h
    · have hpend := hi.shape.ahead j (by rw [hst]; exact List.mem_cons_self) ⟨j, h⟩ le_rfl
      have hle := remaining_suspend
        (s := { s with stack := .suspendLoop (j + 1) :: below }) hpend hs
      have hentered := remaining_enter { s with stack := below } (.suspendLoop (j + 1))
      simp only [State.enter, Frame.weight] at hentered
      omega
    · cases hs
      omega
  · rename_i cause j all below hst
    rw [hst] at hw
    obtain ⟨rfl, -⟩ := hw
    have hpop := remaining_pop hst
    simp only [Frame.weight] at hpop
    split_ifs at hs with h
    · cases hs
      refine lt_of_le_of_lt (remaining_cancel .invoke all ⟨j, h⟩ ans) ?_
      show _ + (n - j) < _
      omega
    · obtain ⟨rfl, -⟩ := afterCancel_of_cancelled hs
      obtain ⟨hac, hast, hab, -, -⟩ := advance_frame { s with stack := below }
      have hadvance := remaining_congr hac hast hab
      show (State.advance _).remaining < _
      omega
  · cases hs

theorem remaining_popCancel {j k : ℕ} {cause : Cause} {all : Bool} {below : List Frame}
    (hst : s.stack = .awaitCancel j :: .cancelLoop cause k all :: below) (now : Bool) :
    ({ s with stack := .cancelLoop cause k now :: below } : State n V Err).remaining < s.remaining := by
  have hpop := remaining_pop hst
  simp only [Frame.weight] at hpop
  exact hpop ▸ Nat.lt_succ_self _

theorem remaining_cancelConfirmed {j : Fin n} {k : ℕ} {cause : Cause} {all : Bool} {below : List Frame}
    (hst : s.stack = .awaitCancel j :: .cancelLoop cause k all :: below)
    (hc : s.child j = .cancelling) :
    (({ s with stack := .cancelLoop cause k all :: below }.setState j .cancelled).muxInvoke
      minReady j none).remaining < s.remaining := by
  have hj : (s.child j).terminal = false := by rw [hc]; rfl
  refine lt_trans (remaining_complete
    (s := { s with stack := .cancelLoop cause k all :: below }) .cancelled hj rfl rfl) ?_
  exact remaining_popCancel hst all

theorem remaining_suspendThrows {j : Fin n} {below : List Frame} {err : Err}
    (hst : s.stack = .awaitSuspend j :: below)
    (hc : s.child j = .running ∨ s.child j = .cancelling) :
    (({ s with stack := below }.setState j .failed).muxInvoke minReady j (some err)).remaining <
      s.remaining := by
  have hpop := remaining_pop hst
  simp only [Frame.weight] at hpop
  have hj : (s.child j).terminal = false := by
    rcases hc with hc | hc <;> rw [hc] <;> rfl
  refine lt_trans (remaining_complete (s := { s with stack := below }) .failed hj rfl rfl) ?_
  omega

/-- Every step lowers the bound. -/
theorem remaining_lt (hi : Inv s) {a : Action n V Err} (hok : NoneSkipped s a)
    (hs : step m minReady s a = .ok t) : t.remaining < s.remaining := by
  cases stepped_of_step hs with
  | earlyCancel => exact hok.elim
  | awaitCancel => exact hok.elim
  | awaitSuspend hb =>
    rw [remaining_enter]
    simp [State.remaining, Frame.weight, hb]
    omega
  | next h => exact remaining_next hi h
  | resume _ _ h => exact remaining_helperInvoke h
  | suspendReturns hst =>
    rw [remaining_pop hst]
    exact Nat.lt_succ_self _
  | suspendThrows hst hc => exact remaining_suspendThrows hst hc
  | cancelConfirmed hst hc => exact remaining_cancelConfirmed hst hc
  | cancelRefused hst => exact remaining_popCancel hst _

/-! ### Going on -/

theorem exists_helperInvoke (minReady : ℕ) {j : Fin n} (ans : Answers V Err)
    (hj : s.child j = .running ∨ s.child j = .cancelling) :
    ∃ t, s.helperInvoke minReady j ans = .ok t := by
  unfold State.helperInvoke
  rcases hj with hj | hj <;> simp only [hj]
  · exact ⟨_, rfl⟩
  · split_ifs <;> exact ⟨_, rfl⟩

theorem exists_kickOff (minReady : ℕ) (s : State n V Err) (j : Fin n) (ans : Answers V Err) :
    ∃ t, s.kickOff minReady j ans = .ok t := by
  simp only [State.kickOff]
  by_cases hr : ans.ready = true
  · rw [if_pos hr]
    refine exists_helperInvoke minReady ans ?_
    split_ifs
    · exact Or.inr (Function.update_self _ _ _)
    · exact Or.inl (Function.update_self _ _ _)
  · rw [if_neg hr]
    exact ⟨_, rfl⟩

theorem exists_suspend (minReady : ℕ) {j : Fin n} (ans : Answers V Err)
    (hp : (s.child j).pending = true) : ∃ t, s.suspend minReady j ans = .ok t := by
  unfold State.suspend
  split
  · exact exists_kickOff minReady s j ans
  · exact exists_kickOff minReady s j ans
  · exact ⟨_, rfl⟩
  · cases hc : s.child j <;> simp_all [HelperState.pending]

/-- The caller of the `internalCancel()` in control will find what it relies on. -/
def Trusts (m : Kind n) : List Frame → Prop
  | .cancelLoop cause _ all :: _ => m.relies cause = true → all = true
  | _ => True

/-- The loop in control always gets to its next iteration. -/
theorem exists_next (minReady : ℕ)
    (hahead : ∀ j, Frame.suspendLoop j ∈ s.stack → ∀ i : Fin n, j ≤ i → (s.child i).pending = true)
    (htrusts : Trusts m s.stack) (ans : Answers V Err) {f : Frame} {below : List Frame} (hst : s.stack = f :: below)
    (hf : othersInControl (f :: below) = false) : ∃ t, s.next m minReady ans = .ok t := by
  unfold State.next
  cases f with
  | suspendLoop j =>
    simp only [hst]
    split_ifs with h
    · refine exists_suspend minReady ans (hahead j ?_ ⟨j, h⟩ le_rfl)
      rw [hst]
      exact List.mem_cons_self
    · exact ⟨_, rfl⟩
  | cancelLoop cause j all =>
    rw [hst] at htrusts
    simp only [hst]
    split_ifs
    · exact ⟨_, rfl⟩
    · refine ⟨_, if_neg fun hc => ?_⟩
      rw [Bool.and_eq_true] at hc
      rw [htrusts hc.1] at hc
      cases hc.2
  | awaitSuspend j | awaitCancel j => cases hf

/-- No assertion fails if the loop of `await_suspend()` finds children that have not been started, and the
caller of `internalCancel()` what it relies on. -/
theorem step_ne_assertion_of_ahead
    (hahead : ∀ j, Frame.suspendLoop j ∈ s.stack → ∀ i : Fin n, j ≤ i → (s.child i).pending = true)
    (htrusts : Trusts m s.stack) (a : Action n V Err) : step m minReady s a ≠ .error .assertion := by
  cases a with
  | next ans =>
    intro hs
    cases hst : s.stack with
    | nil => simp [Mux.step, State.next, hst] at hs
    | cons f below =>
      cases hf : othersInControl (f :: below) with
      | false =>
        obtain ⟨t, ht⟩ := exists_next minReady hahead htrusts ans hst hf
        rw [Mux.step, ht] at hs
        cases hs
      | true => cases f <;> simp_all [Mux.step, State.next, othersInControl]
  | resume j ans =>
    simp only [Mux.step]
    split_ifs with h
    · obtain ⟨t, ht⟩ := exists_helperInvoke minReady ans h.2
      rw [ht]
      simp
    · simp
  | earlyCancel | awaitSuspend | awaitCancel =>
    simp only [Mux.step]
    split_ifs <;> simp
  | suspendReturns =>
    simp only [Mux.step]
    split <;> simp
  | suspendThrows err =>
    simp only [Mux.step, State.suspendThrows]
    split
    · split_ifs <;> simp
    · simp
  | cancelReturns done =>
    simp only [Mux.step, State.cancelReturns]
    split
    · split_ifs <;> simp
    · simp

/-- Nobody cancels the mux from outside. -/
theorem Inv.trusts (hi : Inv s) : Trusts m s.stack := by
  have hw := hi.shape.wellFormed
  cases hst : s.stack with
  | nil => trivial
  | cons f below =>
    rw [hst] at hw
    cases f with
    | cancelLoop cause j all =>
      obtain ⟨rfl, -⟩ := hw
      intro h
      cases h
    | _ => trivial

theorem step_ne_assertion (hi : Inv s) (a : Action n V Err) :
    step m minReady s a ≠ .error .assertion :=
  step_ne_assertion_of_ahead hi.shape.ahead hi.trusts a

/-- An awaiter that is not ready and refuses to be cancelled early. -/
def stubborn [Inhabited V] : Answers V Err := ⟨false, false, true, .ok default⟩

/-- The call in progress goes on. -/
theorem exists_step_of_stack [Inhabited V] (hi : Inv s) {f : Frame} {below : List Frame}
    (hst : s.stack = f :: below) : ∃ a t, NoneSkipped s a ∧ step m minReady s a = .ok t := by
  have hw := hi.shape.wellFormed
  rw [hst] at hw
  cases f with
  | suspendLoop j =>
    obtain ⟨t, ht⟩ := exists_next minReady hi.shape.ahead hi.trusts stubborn hst rfl
    exact ⟨.next stubborn, t, by simp [NoneSkipped, hst], ht⟩
  | cancelLoop cause j all =>
    obtain ⟨t, ht⟩ := exists_next minReady hi.shape.ahead hi.trusts stubborn hst rfl
    exact ⟨.next stubborn, t, by simp [NoneSkipped, hst, stubborn], ht⟩
  | awaitSuspend j =>
    refine ⟨.suspendReturns, { s with stack := below }, trivial, ?_⟩
    simp only [Mux.step, hst]
  | awaitCancel j =>
    obtain ⟨hj, ⟨cause, k, all, below', rfl⟩, -⟩ := hw
    refine ⟨.cancelReturns false, ?_⟩
    simp only [Mux.step, State.cancelReturns, hst, dif_pos hj]
    exact ⟨_, trivial, rfl⟩

/-- The mux has been suspended, no call is in progress, and no child is left that could resume its
handle. -/
structure Over (s : State n V Err) : Prop where
  bound : s.bound = true
  stack : s.stack = []
  children : ∀ j, (s.child j).active = false

/-- A mux that is not over can go on. -/
theorem exists_step [Inhabited V] (minReady : ℕ) (hi : Inv s) (h : ¬ Over s) :
    ∃ a t, NoneSkipped s a ∧ step m minReady s a = .ok t := by
  cases hst : s.stack with
  | cons f below => exact exists_step_of_stack hi hst
  | nil =>
    cases hb : s.bound with
    | false =>
      refine ⟨.awaitSuspend, { s with bound := true }.enter (.suspendLoop 0), trivial, ?_⟩
      simp only [Mux.step, if_pos (And.intro hb hst)]
    | true =>
      obtain ⟨j, hj⟩ : ∃ j, (s.child j).active = true := by
        by_contra hne
        exact h ⟨hb, hst, by simpa using hne⟩
      have hact : s.child j = .running ∨ s.child j = .cancelling := by
        cases hc : s.child j <;> simp_all [HelperState.active]
      obtain ⟨t, ht⟩ := exists_helperInvoke minReady stubborn hact
      refine ⟨.resume j stubborn, t, trivial, ?_⟩
      simp only [Mux.step, hst]
      rw [if_pos ⟨rfl, hact⟩]
      exact ht

/-- A mux that is over has resumed its parent: the loop of `await_suspend()` has started all
children, so they are terminal, and all are counted. -/
theorem Inv.resumed_of_over (hi : Inv s) (h : Over s) :
    s.resumed.length = 1 ∧ ∀ j, (s.child j).terminal = true := by
  have hall : ∀ j, (s.child j).terminal = true := by
    intro j
    have hready := hi.shape.unready j
    have hact := h.children j
    have hp : (s.child j).pending = false := by
      by_contra hp
      obtain ⟨k, hk, -⟩ := hi.shape.behind j (by simpa using hp) h.bound
      rw [h.stack] at hk
      cases hk
    cases hc : s.child j <;>
      simp_all [HelperState.pending, HelperState.active, HelperState.terminal]
  have hcount : s.count = n := by
    have hc := hi.tally.counted
    rw [h.stack, nTerminal, Finset.filter_true_of_mem fun j _ => hall j, Finset.card_univ,
      Fintype.card_fin] at hc
    exact hc
  refine ⟨?_, hall⟩
  rw [hi.tally.resumed, if_pos hcount]

/-! ### The result -/

/-- In every run of a mux over at least one child in which nobody cancels the mux from outside
and no child that has not been started agrees to being cancelled early by the mux:

* every child is counted once, when it becomes terminal;
* the parent is resumed at most once, and at that moment all children are terminal;
* no assertion fails, and the run goes on until the mux is over: no call is in progress, and no
  child is left that could resume its handle;
* then the parent has been resumed;
* and the run has a bounded number of steps. -/
theorem parent_resumed_once [Inhabited V] (hn : 0 < n) {as : List (Action n V Err)}
    (hm : Meets (step m minReady) NoneSkipped .init as) (he : exec (step m minReady) .init as = .ok s) :
    (∀ j, s.invoked j = if (s.child j).terminal then 1 else 0) ∧
    s.resumed.length ≤ 1 ∧ (∀ c ∈ s.resumed, ∀ j, (c j).terminal = true) ∧
    (∀ a, step m minReady s a ≠ .error .assertion) ∧
    (¬ Over s → ∃ a t, NoneSkipped s a ∧ step m minReady s a = .ok t) ∧
    (Over s → s.resumed.length = 1 ∧ ∀ j, (s.child j).terminal = true) ∧
    as.length ≤ n * (n + 5) + n + 2 := by
  have hi : Inv s := inv_of_reach hn (reach_of_exec hm he)
  refine ⟨hi.invoked, ?_, hi.tally.snapshots, step_ne_assertion hi, exists_step minReady hi,
    hi.resumed_of_over, ?_⟩
  · rw [hi.tally.resumed]
    split_ifs <;> omega
  · have hlen := length_add_le_of_lt hm he (inv_init hn)
      (fun _ _ _ hi hok hs => hi.step hok hs) fun _ _ _ hi hok hs => remaining_lt hi hok hs
    rw [remaining_init] at hlen
    omega

/-- An awaiter that is not ready, and agrees to being cancelled early or not. -/
def notReady (early : Bool) : Answers ℕ ℕ := ⟨false, early, false, .ok 0⟩

/-- An awaiter that is ready. -/
def readyWith (v : ℕ) : Answers ℕ ℕ := ⟨true, false, false, .ok v⟩

/-- `anyOf()` over children of which nothing is known. -/
def anyOfKind (n : ℕ) : Kind n := ⟨true, fun _ => false, fun _ => false⟩

/-- `anyOf()` over two children: the first one suspends, the second one is ready and cancels it,
and it confirms the cancellation within `await_cancel()`. -/
def secondReady : List (Action 2 ℕ ℕ) :=
  [.awaitSuspend, .next (notReady false), .suspendReturns, .next (readyWith 1),
    .next (notReady false), .cancelReturns true] ++ List.replicate 6 (.next (notReady false))

theorem parent_resumed_once_secondReady :
    ∃ s, exec (step (anyOfKind _) 1) (.init : State 2 ℕ ℕ) secondReady = .ok s ∧ s.stack = [] ∧
      s.resumed.length = 1 := by
  have hm : Meets (step (anyOfKind _) 1) NoneSkipped (.init : State 2 ℕ ℕ) secondReady := by decide
  refine ⟨_, rfl, rfl, ?_⟩
  exact ((parent_resumed_once (by decide) hm rfl).2.2.2.2.2.1 ⟨rfl, rfl, by decide⟩).1

/-- Nobody cancels the mux from outside. -/
def Uncancelled (_ : State n V Err) : Action n V Err → Prop
  | .earlyCancel => False
  | .awaitCancel => False
  | _ => True

/-- `anyOf()` over three children: the first one suspends, and the second one is ready and cancels
the others.  The first one does not confirm yet; the third one, which has not been started, agrees
to being cancelled early.  The loop of `await_suspend()` then gets to it. -/
def skippedChild : List (Action 3 ℕ ℕ) :=
  [.awaitSuspend, .next (notReady false), .suspendReturns, .next (readyWith 1),
    .next (notReady false), .cancelReturns false, .next (notReady false),
    .next (notReady true)] ++ List.replicate 6 (.next (notReady false))

/-- So the parent can be resumed while a child is still being cancelled, because another one has
been counted twice. -/
theorem not_parent_resumed_once :
    ¬ ∀ s : State 3 ℕ ℕ, Reach (step (anyOfKind _) 1) Uncancelled .init s →
      (∀ j, s.invoked j ≤ 1) ∧ (∀ c ∈ s.resumed, ∀ j, (c j).terminal = true) := by
  intro h
  have hm : Meets (step (anyOfKind _) 1) Uncancelled (.init : State 3 ℕ ℕ) skippedChild :=
    meets_of_forall (by simp [skippedChild, Uncancelled]) _
  obtain ⟨-, hall⟩ := h _ (reach_of_exec hm rfl)
  have hfirst := hall _ (List.mem_singleton.2 rfl) 0
  revert hfirst
  decide

end Corral.Mux
