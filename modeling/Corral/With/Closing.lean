import Corral.With.Runs

/-!
# How the stages of a `with()` scope are closed

Between the moment in which a stage ends and the moment in which the scope goes on with the other
one, the stage may be asked for its result, and the second stage is destroyed.

* `Frame.closes`: the calls in which this happens;
* `Past`: both stages have ended, and nothing of the kind is in progress; it stays so, as `Rests`
  says for every change.
-/

namespace Corral.With

open ActionMachine AwaiterStateChecker

variable {Err : Type*} {s t : State Err}

/-- The calls between the end of the stage `w` and what follows. -/
def Frame.closes (w : Which) : Frame Err → Bool
  | .mustResume w' _ => w' == w
  | .result _ => w == .second
  | .destroySecond _ _ => w == .second
  | .destroyThrown _ w' _ => w' == w
  | _ => false

/-- The stage `w` is asked for its result, or the second stage is destroyed because `w` has ended. -/
def State.closing (s : State Err) (w : Which) : Bool := s.stack.any (Frame.closes w)

/-- `then()` is running. -/
def State.inThen (s : State Err) : Bool := s.stack.any Frame.isThen

/-- The calls that do not return without the scope going on with one of its stages. -/
def Frame.busy (f : Frame Err) : Bool := f.isThen || f.closes .first || f.closes .second

/-- No such call is in progress. -/
def State.Settled (s : State Err) : Prop := ∀ f ∈ s.stack, f.busy = false

theorem busy_of_closes {f : Frame Err} {w : Which} (h : f.closes w = true) : f.busy = true := by
  cases w <;> simp [Frame.busy, h]

theorem not_then_of_busy {f : Frame Err} (h : f.busy = false) : f.isThen = false := by
  simp only [Frame.busy, Bool.or_eq_false_iff] at h
  exact h.1.1

theorem not_closes_of_busy {f : Frame Err} (h : f.busy = false) (w : Which) : f.closes w = false := by
  simp only [Frame.busy, Bool.or_eq_false_iff] at h
  cases w with
  | first => exact h.1.2
  | second => exact h.2

theorem closing_eq_false {w : Which} : s.closing w = false ↔ ∀ f ∈ s.stack, f.closes w = false := by
  simp [State.closing]

theorem inThen_eq_false : s.inThen = false ↔ ∀ f ∈ s.stack, f.isThen = false := by
  simp [State.inThen]

theorem settled_of (hthen : ∀ f ∈ s.stack, f.isThen = false)
    (hclose : ∀ w, ∀ f ∈ s.stack, f.closes w = false) : s.Settled := by
  intro f hf
  simp [Frame.busy, hthen f hf, hclose .first f hf, hclose .second f hf]

theorem Settled.pop {f : Frame Err} {below : List (Frame Err)} (h : s.Settled)
    (hst : s.stack = f :: below) : ({ s with stack := below } : State Err).Settled :=
  fun g hg => h g (hst ▸ List.mem_cons_of_mem f hg)

/-! ### What the calls say about the stages -/

/-- A stage that is being closed has ended, or thrown out of `await_suspend()`. -/
theorem Core.life_of_closes {f : Frame Err} {w : Which} (hc : Core s) (hf : f ∈ s.stack)
    (h : f.closes w = true) : (s.get w).life = .ended ∨ (s.get w).life = .threw := by
  have hends := hc.holds f hf
  cases f with
  | mustResume w' both =>
    obtain rfl : w' = w := by simpa [Frame.closes] using h
    cases w' <;> exact .inl hends
  | result both =>
    obtain rfl : w = .second := by simpa [Frame.closes] using h
    exact .inl hends
  | destroySecond stage both =>
    obtain rfl : w = .second := by simpa [Frame.closes] using h
    exact .inl hends
  | destroyThrown err w' both =>
    obtain rfl : w' = w := by simpa [Frame.closes] using h
    exact .inr (hc.threw_of_mem hf)
  | _ => cases h

theorem Core.not_closes_of_alive {w : Which} (hc : Core s) (hal : (s.get w).life.alive = true) :
    ∀ f ∈ s.stack, f.closes w = false := by
  intro f hf
  by_contra h
  rcases hc.life_of_closes hf (by simpa using h) with h | h <;>
    (rw [h] at hal; cases hal)

/-- A stage that has thrown is closed. -/
theorem Core.closing_of_threw {w : Which} (hc : Core s) (h : (s.get w).life = .threw) :
    s.closing w = true := by
  obtain ⟨err, both, hf⟩ := hc.mem_of_threw h
  rw [State.closing, List.any_eq_true]
  exact ⟨_, hf, by simp [Frame.closes]⟩

/-- While a stage is being closed, the first stage does not signal readiness. -/
theorem Core.not_closes_of_maySignal {w : Which} (hc : Core s) (hm : s.maySignal = true) :
    ∀ f ∈ s.stack, f.closes w = false := by
  intro f hf
  by_contra h
  have hl := hc.life_of_closes hf (by simpa using h)
  cases w with
  | second =>
    have hnew := (hc.unsignalled (unsignalled_of_maySignal hm)).1
    rcases hl with h | h <;> cases hnew.symm.trans h
  | first =>
    simp only [State.maySignal, Bool.and_eq_true, Bool.or_eq_true] at hm
    have hno : ∀ life, s.first.life = life → life ≠ .ended ∧ life ≠ .threw → False := by
      rintro life rfl hne
      rcases hl with h | h
      · exact hne.1 h
      · exact hne.2 h
    rcases hm.2 with (hcon | hin) | hin
    · obtain ⟨g, hg, hcon⟩ := List.any_eq_true.1 hcon
      exact hno _ (hc.construct g hg hcon) (by simp)
    · exact hno _ (isIn_iff.1 hin).2 (by simp)
    · exact hno _ (isIn_iff.1 hin).2 (by simp)

theorem alive_of_done {st : StageState} (h : StageOk st) (hd : st.done = true) :
    st.life.alive = false := by
  rcases h.done hd with h | h <;> rw [h] <;> rfl

/-- A stage that has been made and is not done is alive, or has thrown. -/
theorem StageOk.alive {st : StageState} (h : StageOk st) (hnew : st.life ≠ .new)
    (hd : st.done = false) : st.life.alive = true ∨ st.life = .threw := by
  cases hl : st.life with
  | new => exact absurd hl hnew
  | idle => exact .inl rfl
  | running => exact .inl rfl
  | threw => exact .inr rfl
  | ended => cases hd.symm.trans (h.ended hl)

/-- A second stage whose object exists is done, or alive. -/
theorem Core.alive_of_built (hc : Core s) (hb : s.second.built = true)
    (hd : s.second.done = false) : s.second.life.alive = true := by
  refine (hc.second.alive (hc.second.built hb) hd).resolve_right fun h => ?_
  cases hb.symm.trans (hc.not_built_of_threw h)

theorem Core.alive_of_running (hc : Core s) (h : s.second.isRunning = true) :
    s.second.life.alive = true ∨ s.second.life = .threw := by
  simp only [StageState.isRunning, Bool.and_eq_true, Bool.not_eq_true'] at h
  refine hc.second.alive ?_ h.2
  rcases hc.second.started h.1 with h | h | h <;> simp [h]

theorem Core.not_running (hc : Core s) (h : s.second.isRunning = false) :
    s.second.life ≠ .running := by
  intro hl
  have hd : s.second.done = true := by simpa [StageState.isRunning, hc.second.running hl] using h
  have hno := alive_of_done hc.second hd
  rw [hl] at hno
  cases hno

/-! ### Both stages have ended -/

/-- The first stage has ended, and the second one is not there or has ended too. -/
structure Past (s : State Err) : Prop where
  first : s.first.life = .ended
  second : s.second.life.alive = false
  settled : s.Settled

/-- Nothing changes but what is known of the parent, and calls that return. -/
structure Rests (s t : State Err) : Prop where
  first : t.first.life = s.first.life
  second : t.second.life = s.second.life
  stack : t.stack <:+ s.stack

theorem rests_pop {f : Frame Err} {below : List (Frame Err)} (hst : s.stack = f :: below) :
    Rests s { s with stack := below } :=
  ⟨rfl, rfl, hst ▸ List.suffix_cons f below⟩

theorem Past.not_busy {f : Frame Err} {below : List (Frame Err)} (hp : Past s)
    (hst : s.stack = f :: below) (hf : f.busy = true) : False := by
  cases (hp.settled f (mem_top hst)).symm.trans hf

theorem Past.not_alive {w : Which} (hp : Past s) (hal : (s.get w).life.alive = true) : False := by
  cases w with
  | first =>
    rw [get_first, hp.first] at hal
    cases hal
  | second => cases hp.second.symm.trans hal

theorem Past.not_isIn {w : Which} {life : Life} (hp : Past s) (hal : life.alive = true)
    (hin : s.isIn w life = true) : False :=
  hp.not_alive (alive_of_isIn hin hal)

/-- Neither of the stages has thrown. -/
theorem Past.not_threw {w : Which} (hc : Core s) (hp : Past s) : (s.get w).life ≠ .threw := by
  intro h
  obtain ⟨f, hf, hclose⟩ := List.any_eq_true.1 (hc.closing_of_threw h)
  cases (hp.settled f hf).symm.trans (busy_of_closes hclose)

theorem Past.not_maySignal (hc : Core s) (hp : Past s) : s.maySignal = false := by
  by_contra hm
  simp only [State.maySignal, Bool.not_eq_false, Bool.and_eq_true, Bool.or_eq_true] at hm
  rcases hm.2 with (hcon | hin) | hin
  · obtain ⟨g, hg, hcon⟩ := List.any_eq_true.1 hcon
    cases hp.first.symm.trans (hc.construct g hg hcon)
  · exact hp.not_isIn rfl hin
  · exact hp.not_isIn rfl hin

/-- The second stage is not begun any more. -/
theorem Past.begins {u : State Err} {both ret : Bool} (hc : Core s) (hp : Past s)
    (h : Begins s .second both u ret) : u = s := by
  cases h with
  | done => rfl
  | early hd _ _ hb => exact (hp.not_alive (w := .second) (hc.alive_of_built hb hd)).elim
  | readies _ _ hr =>
    cases hr with
    | ready hin => exact (hp.not_isIn rfl hin).elim
    | suspends hin => exact (hp.not_isIn rfl hin).elim

theorem Past.next {both : Bool} (hc : Core s) (hp : Past s)
    (hcont : Continues (State.next both) s true t) : t = s := by
  rcases next_cases hcont with ⟨h, -⟩ | ⟨-, -, ret', hb⟩
  · exact h
  · exact hp.begins hc hb

theorem Past.pop {f : Frame Err} {below : List (Frame Err)} (hp : Past s)
    (hst : s.stack = f :: below) : Past { s with stack := below } :=
  { hp with settled := Settled.pop hp.settled hst }

theorem Past.not_making {a : Action Err} (hc : Core s) (hp : Past s) : ¬ Making s a t := by
  intro h
  cases h with
  | constructs hst => cases hp.first.symm.trans (hc.construct _ (mem_top hst) rfl)
  | ignored hm => cases (hp.not_maySignal hc).symm.trans hm
  | signals hm => cases (hp.not_maySignal hc).symm.trans hm
  | makes hst => exact hp.not_busy hst rfl
  | makesBegins hst => exact hp.not_busy hst rfl
  | makesCancels hst => exact hp.not_busy hst rfl
  | throwsWaits hst => exact hp.not_busy hst rfl
  | throwsLast hst => exact hp.not_busy hst rfl
  | throwsAsks hst => exact hp.not_busy hst rfl

/-- A call returns, and the second stage is not begun. -/
theorem Past.nextPop {f : Frame Err} {below : List (Frame Err)} {both : Bool} (hc : Core s)
    (hp : Past s) (hst : s.stack = f :: below) (hth : ∀ w, f.isThrown w = false)
    (hcont : Continues (State.next both) { s with stack := below } true t) : Rests s t := by
  rw [(hp.pop hst).next (hc.pop hst hth) hcont]
  exact rests_pop hst

theorem Past.answering {a : Action Err} (hc : Core s) (hp : Past s) (h : Answering s a t) :
    Rests s t := by
  cases h with
  | @beginReadies w _ _ _ _ _ _ hr =>
    have hin : s.isIn w .idle = true := by
      cases hr with
      | ready hin => cases w <;> exact hin
      | suspends hin => cases w <;> exact hin
    exact (hp.not_isIn rfl hin).elim
  | beginConfirms _ hin => exact (hp.not_isIn rfl hin).elim
  | refusesDone hst hcont => exact hp.nextPop hc hst (fun _ => rfl) hcont
  | refusesDoCancel hst => exact { rests_pop hst with }
  | refusesThrew hst => exact rests_pop hst
  | refusesStarted hst hcont => exact hp.nextPop hc hst (fun _ => rfl) hcont
  | confirmsDone _ hin => exact (hp.not_isIn alive_ite hin).elim
  | confirmsSecond _ hin => exact (hp.not_isIn alive_ite hin).elim
  | confirmsFirst _ hin => exact (hp.not_isIn alive_ite hin).elim
  | confirmsThrew _ hin => exact (hp.not_isIn alive_ite hin).elim
  | confirmsStarted _ hin => exact (hp.not_isIn alive_ite hin).elim

theorem Past.ending {a : Action Err} (hc : Core s) (hp : Past s) (h : Ending s a t) : Rests s t := by
  cases h with
  | suspendReturns hst hcont => exact hp.nextPop hc hst (fun _ => rfl) hcont
  | suspendThrows _ hin => exact (hp.not_isIn rfl hin).elim
  | suspendFails _ hin => exact (hp.not_isIn rfl hin).elim
  | resumes hin => exact (hp.not_isIn rfl hin).elim
  | @mustResumes w _ _ _ _ _ _ hst =>
    exact (hp.not_busy hst (busy_of_closes (w := w) (by simp [Frame.closes]))).elim
  | takesResult hst => exact (hp.not_busy hst rfl).elim
  | resultThrows hst => exact (hp.not_busy hst rfl).elim
  | destroyed hst => exact (hp.not_busy hst rfl).elim
  | @destroyedThrown _ w _ _ _ _ _ hst =>
    exact (hp.not_busy hst (busy_of_closes (w := w) (by simp [Frame.closes]))).elim

/-- Neither of the stages is asked to cancel itself. -/
theorem Past.doCancels {c : Checker} {early : Bool} (hc : Core s) (hp : Past s)
    (h : DoCancels { s with checker := c, cancelling := true } early t) : Rests s t := by
  have hrun : s.second.isRunning = false := by
    by_contra hrun
    rcases hc.alive_of_running (by simpa using hrun) with h | h
    · exact hp.not_alive (w := .second) h
    · exact hp.not_threw (w := .second) hc h
  cases h with
  | again h => cases hrun.symm.trans h
  | gone h => cases hrun.symm.trans h
  | asks h => cases hrun.symm.trans h
  | first _ h =>
    cases h with
    | returns => exact ⟨rfl, rfl, List.suffix_rfl⟩
    | asks _ hd => cases hd.symm.trans (hc.first.ended hp.first)

theorem Past.preparing {a : Action Err} (hc : Core s) (hp : Past s) (h : Preparing s a t) :
    Rests s t := by
  cases h with
  | ready => exact ⟨rfl, rfl, List.suffix_rfl⟩
  | cancelsEarly _ _ _ h => exact hp.doCancels (c := s.checker) hc h
  | setsExecutor => exact ⟨rfl, rfl, List.suffix_rfl⟩
  | @suspends c _ u _ hb hst hcheck hbeg hcont =>
    have hu : Past { s with checker := c, parent := true } := { hp with }
    have hcu := hc.suspends hb hcheck
    obtain rfl : u = { s with checker := c, parent := true } := by
      cases hbeg with
      | done => rfl
      | early hd => cases hd.symm.trans (hc.first.ended hp.first)
      | readies hd => cases hd.symm.trans (hc.first.ended hp.first)
    have ht : t = { s with checker := c, parent := true } := by
      rcases next_cases hcont with ⟨h, -⟩ | ⟨-, -, ret', h⟩
      · exact h
      · exact hu.begins hcu h
    rw [ht]
    exact ⟨rfl, rfl, List.suffix_rfl⟩

theorem Past.performing {a : Action Err} (hc : Core s) (hp : Past s) (h : Performing s a t) :
    Rests s t := by
  cases h with
  | cancels _ _ h => exact hp.doCancels hc h
  | mustResume => exact ⟨rfl, rfl, List.suffix_rfl⟩
  | takes => exact ⟨rfl, rfl, List.suffix_rfl⟩
  | destroys => exact ⟨rfl, rfl, List.suffix_rfl⟩

theorem Past.rests {a : Action Err} (hc : Core s) (hp : Past s) (h : Change s a t) : Rests s t := by
  cases h with
  | @answers w => cases w <;> exact ⟨rfl, rfl, List.suffix_rfl⟩
  | making h => exact (hp.not_making hc h).elim
  | answering h => exact hp.answering hc h
  | ending h => exact hp.ending hc h
  | preparing h => exact hp.preparing hc h
  | performing h => exact hp.performing hc h

/-- A scope that is past its stages stays so. -/
theorem Past.change {a : Action Err} (hc : Core s) (hp : Past s) (h : Change s a t) : Past t := by
  have hr := hp.rests hc h
  refine ⟨hr.first.trans hp.first, ?_, fun f hf => hp.settled f (hr.stack.subset hf)⟩
  rw [hr.second]
  exact hp.second

end Corral.With
