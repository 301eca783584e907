import Corral.With.Model

/-!
# `with()`: what the functions do

Every function of the scope that calls the stages is described by a relation that lists its
outcomes: `Joins`, `Settles` and `Ends` for `onStageDone()`, `Readies` and `Begins` for
`beginStage()`.  Their last argument says whether the function has returned, or has called a stage
that may run other code.
-/

namespace Corral.With

open ActionMachine AwaiterStateChecker

variable {Err : Type*} {s t : State Err}

@[simp] theorem get_first (s : State Err) : s.get .first = s.first := rfl

@[simp] theorem get_second (s : State Err) : s.get .second = s.second := rfl

@[simp] theorem set_first (s : State Err) (st : StageState) :
    s.set .first st = { s with first := st } := rfl

@[simp] theorem set_second (s : State Err) (st : StageState) :
    s.set .second st = { s with second := st } := rfl

@[simp] theorem other_first : Which.first.other = .second := rfl

@[simp] theorem other_second : Which.second.other = .first := rfl

@[simp] theorem exists_first (s : State Err) : s.exists .first = true := rfl

@[simp] theorem exists_second (s : State Err) : s.exists .second = s.stage.isSecond := rfl

theorem isIn_iff {w : Which} {life : Life} :
    s.isIn w life = true ↔ (s.get w).built = true ∧ (s.get w).life = life := by
  simp [State.isIn]

/-- What `cancelStage()` does. -/
inductive Cancels (s : State Err) (w : Which) (caller : Caller) : Option Bool → State Err → Prop
  | again : (s.get w).cancelling = true → Cancels s w caller (some false) s
  | nothing : (s.get w).cancelling = false → (s.exists w = false ∨ (s.get w).done = true) →
      Cancels s w caller (some true) s
  | asks : (s.get w).cancelling = false → s.exists w = true → (s.get w).done = false →
      (s.get w).built = true → Cancels s w caller none
        ((s.set w { s.get w with cancelling := true, asked := (s.get w).started }).enter
          (.cancelStage w (!(s.get w).started) caller))

theorem cancels_of_cancelStage {w : Which} {caller : Caller} {ret : Option Bool}
    (h : s.cancelStage w caller = .ok (ret, t)) : Cancels s w caller ret t := by
  unfold State.cancelStage at h
  simp only at h
  split_ifs at h with hc he hd hb
  · cases h
    exact .again hc
  · cases h
    exact .nothing (by simpa using hc) (.inl he)
  · cases h
    exact .nothing (by simpa using hc) (.inr hd)
  · cases h
    exact .asks (by simpa using hc) (by simpa using he) (by simpa using hd) hb

/-! ### `onStageDone()` -/

/-- What `onStageDone()` does from the other stage on: the parent is resumed; or the other stage has
been cancelled before, and is waited for; or it is cancelled. -/
inductive Joins (s : State Err) (w : Which) (both : Bool) : State Err → Bool → Prop
  | last : ((s.get w.other).done = true ∨
        (s.get w.other).cancelling = false ∧ s.exists w.other = false) →
      Joins s w both s.resumeParent true
  | waits : (s.get w.other).done = false → (s.get w.other).cancelling = true →
      Joins s w both s true
  | asks : (s.get w.other).done = false → (s.get w.other).cancelling = false →
      s.exists w.other = true → (s.get w.other).built = true → Joins s w both
        ((s.set w.other { s.get w.other with
          cancelling := true
          asked := (s.get w.other).started }).enter
            (.cancelStage w.other (!(s.get w.other).started) (.onStageDone both))) false

/-- What `onStageDone()` does once it is known whether the stage is to be resumed: the second stage
is destroyed, or asked for its result. -/
inductive Settles (s : State Err) (w : Which) (both : Bool) : State Err → Bool → Prop
  | destroys : w = .second → s.stage.isSecond = true → s.second.mustNotResume = true →
      Settles s w both (s.destroySecond .none both) false
  | takes : w = .second → s.stage.isSecond = true → s.second.mustNotResume = false →
      Settles s w both (s.enter (.result both)) false
  | joins {u : State Err} {ret : Bool} : (w = .second → s.stage.isSecond = false) →
      Joins s w both u ret → Settles s w both u ret

/-- What `onStageDone()` does. -/
inductive Ends (s : State Err) (w : Which) (both : Bool) : State Err → Bool → Prop
  | asks : (s.get w).mustNotResume = false → (s.get w).cancelling = true →
      (s.get w).built = true → Ends s w both ((s.finish w).enter (.mustResume w both)) false
  | settles {u : State Err} {ret : Bool} : Settles (s.finish w) w both u ret → Ends s w both u ret

variable {next : State Err → Except Fault (State Err)} {w : Which} {both : Bool}

/-- The function has returned in `u`, and `next` follows; or it has not. -/
def Continues (next : State Err → Except Fault (State Err)) (u : State Err) (ret : Bool)
    (t : State Err) : Prop :=
  ret = true ∧ next u = .ok t ∨ ret = false ∧ t = u

theorem continues_ok {u : State Err} {ret : Bool} (h : Continues .ok u ret t) : t = u := by
  rcases h with ⟨-, h⟩ | ⟨-, h⟩
  · cases h
    rfl
  · exact h

theorem joins_of_joinStages (h : s.joinStages w both next = .ok t) :
    ∃ u ret, Joins s w both u ret ∧ Continues next u ret t := by
  unfold State.joinStages at h
  split_ifs at h with hd
  · exact ⟨_, true, .last (.inl hd), .inl ⟨rfl, h⟩⟩
  · obtain ⟨⟨ret, v⟩, hv, h⟩ := bind_eq_ok.1 h
    have hdone : (s.get w.other).done = false := by simpa using hd
    cases cancels_of_cancelStage hv with
    | again hc => exact ⟨s, true, .waits hdone hc, .inl ⟨rfl, h⟩⟩
    | nothing hc hor =>
      rcases hor with he | hd'
      · exact ⟨_, true, .last (.inr ⟨hc, he⟩), .inl ⟨rfl, h⟩⟩
      · exact absurd hd' hd
    | asks hc he _ hb =>
      cases h
      exact ⟨_, false, .asks hdone hc he hb, .inr ⟨rfl, rfl⟩⟩

theorem settles_of_takeResult (h : s.takeResult w both next = .ok t) :
    ∃ u ret, Settles s w both u ret ∧ Continues next u ret t := by
  unfold State.takeResult at h
  split_ifs at h with hw hm
  · cases h
    exact ⟨_, false, .destroys hw.1 hw.2 hm, .inr ⟨rfl, rfl⟩⟩
  · cases h
    exact ⟨_, false, .takes hw.1 hw.2 (by simpa using hm), .inr ⟨rfl, rfl⟩⟩
  · obtain ⟨u, ret, hj, hcont⟩ := joins_of_joinStages h
    refine ⟨u, ret, .joins (fun hw' => ?_) hj, hcont⟩
    by_contra hin
    exact hw ⟨hw', by simpa using hin⟩

theorem get_set (s : State Err) (w : Which) (st : StageState) : (s.set w st).get w = st := by
  cases w <;> rfl

theorem ends_of_onStageDone (h : s.onStageDone w both next = .ok t) :
    ∃ u ret, Ends s w both u ret ∧ Continues next u ret t := by
  unfold State.onStageDone at h
  simp only [State.finish, get_set] at h
  split_ifs at h with hm hb
  · cases h
    simp only [Bool.and_eq_true, Bool.not_eq_true'] at hm
    exact ⟨_, false, .asks hm.1 hm.2 hb, .inr ⟨rfl, rfl⟩⟩
  · obtain ⟨u, ret, hs, hcont⟩ := settles_of_takeResult h
    exact ⟨u, ret, .settles hs, hcont⟩

/-! ### `beginStage()` -/

/-- What `beginStage()` does from `await_ready()` on. -/
inductive Readies (s : State Err) (w : Which) (both : Bool) : State Err → Bool → Prop
  | ready {u : State Err} {ret : Bool} : s.isIn w .idle = true → Ends s w both u ret →
      Readies s w both u ret
  | suspends : s.isIn w .idle = true → Readies s w both
      ((s.set w { s.get w with started := true, life := .running }).enter (.suspend w both)) false

theorem readies_of_beginReady (h : s.beginReady w both next = .ok t) :
    ∃ u ret, Readies s w both u ret ∧ Continues next u ret t := by
  unfold State.beginReady at h
  simp only at h
  split_ifs at h with hb hl hr
  · obtain ⟨u, ret, he, hc⟩ := ends_of_onStageDone h
    exact ⟨u, ret, .ready (isIn_iff.2 ⟨by simpa using hb, by simpa using hl⟩) he, hc⟩
  · cases h
    exact ⟨_, false, .suspends (isIn_iff.2 ⟨by simpa using hb, by simpa using hl⟩),
      .inr ⟨rfl, rfl⟩⟩

/-- What `beginStage()` does. -/
inductive Begins (s : State Err) (w : Which) (both : Bool) : State Err → Bool → Prop
  | done : (s.get w).done = true → Begins s w both s true
  | early : (s.get w).done = false → s.cancelling = true → (s.get w).cancelling = false →
      (s.get w).built = true → Begins s w both
        ((s.set w { s.get w with cancelling := true }).enter (.beginEarlyCancel w both)) false
  | readies {u : State Err} {ret : Bool} : (s.get w).done = false →
      (s.cancelling = true → (s.get w).cancelling = true) → Readies s w both u ret →
      Begins s w both u ret

theorem begins_of_beginStage (h : s.beginStage w both next = .ok t) :
    ∃ u ret, Begins s w both u ret ∧ Continues next u ret t := by
  unfold State.beginStage at h
  simp only at h
  split_ifs at h with hd hc hb
  · exact ⟨s, true, .done hd, .inl ⟨rfl, h⟩⟩
  · cases h
    simp only [Bool.and_eq_true, Bool.not_eq_true'] at hc
    exact ⟨_, false, .early (by simpa using hd) hc.1 hc.2 hb, .inr ⟨rfl, rfl⟩⟩
  · obtain ⟨u, ret, hr, hcont⟩ := readies_of_beginReady h
    refine ⟨u, ret, .readies (by simpa using hd) (fun hcan => ?_) hr, hcont⟩
    by_contra hno
    exact hc (by simp [hcan, hno])

theorem begins_of_beginSecond (h : s.beginSecond = .ok t) :
    ∃ ret, Begins s .second false t ret := by
  obtain ⟨u, ret, hb, hc⟩ := begins_of_beginStage h
  cases continues_ok hc
  exact ⟨ret, hb⟩

/-- What follows after the first stage has been begun. -/
theorem next_cases {u : State Err} {ret : Bool} (h : Continues (State.next both) u ret t) :
    t = u ∧ (ret = true → both = false) ∨
      ret = true ∧ both = true ∧ ∃ ret', Begins u .second false t ret' := by
  rcases h with ⟨hret, h⟩ | ⟨hret, h⟩
  · cases both with
    | false =>
      cases h
      exact .inl ⟨rfl, fun _ => rfl⟩
    | true => exact .inr ⟨hret, rfl, begins_of_beginSecond h⟩
  · exact .inl ⟨h, fun h' => by simp [hret] at h'⟩

end Corral.With
