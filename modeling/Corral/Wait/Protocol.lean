import Corral.Wait.Steps
import Corral.Lib.History

/-!
# What a mux asks of the awaiters of its children

* `Allowed`: when the mux may call the awaiter of a child, given what has happened before;
* `Unasked`: the runs in which `internalCancel()` does not get to a child whose
  `await_early_cancel()` is in progress;
* `Fits`: what has happened to a child in each of its states;
* `calls_allowed`: the result.
-/

namespace Corral.Wait

open ActionMachine AwaiterStateChecker History
open Mux (HelperState Cause)

variable {n : ℕ} {V Err : Type*} {m : Kind n} {s t u : State n V Err}

/-! ### The protocol -/

/-- A cancellation has been requested. -/
def Requested (l : List Event) : Prop := .earlyCancel ∈ l ∨ .cancel ∈ l

/-- `await_must_resume()` has been called. -/
def Asked (l : List Event) : Prop := ∃ answer, .mustResume answer ∈ l

/-- The mux may call the awaiter, given what has happened before; what the awaiter does on its own is
not restricted. -/
def Allowed (l : List Event) : Event → Prop
  | .earlyCancel => ¬ Requested l ∧ .suspend ∉ l
  | .cancel => ¬ Requested l ∧ .suspend ∈ l ∧ .resumed ∉ l
  | .suspend => .suspend ∉ l ∧ .confirmed ∉ l
  | .mustResume _ => ¬ Asked l ∧ Requested l ∧ .confirmed ∉ l
  | .resume => .resume ∉ l ∧ .confirmed ∉ l ∧ .mustResume false ∉ l
  | _ => True

/-! ### The runs -/

/-- `internalCancel()` gets to a child whose `await_early_cancel()` is in progress. -/
def State.asksAgain (s : State n V Err) : Bool :=
  match s.stack with
  | .cancelLoop _ j _ :: below => below.contains (.earlyCancel j)
  | _ => false

def Unasked (s : State n V Err) : Action n V Err → Prop
  | .next _ => s.asksAgain = false
  | _ => True

instance (s : State n V Err) : (a : Action n V Err) → Decidable (Unasked s a)
  | .next _ => inferInstanceAs (Decidable (_ = _))
  | .becomesReady _ | .resumes _ _ | .suspendReturns | .suspendThrows _ | .earlyCancelReturns _
  | .cancelReturns _ | .resumeReturns _ | .parentReturns | .awaitReady | .awaitEarlyCancel
  | .awaitSetExecutor | .awaitSuspend | .awaitCancel | .awaitMustResume _ | .awaitResume _ =>
    isTrue trivial

/-! ### The children -/

/-- The cancellation has not been confirmed, and nobody has asked for the result. -/
structure Untouched (l : List Event) : Prop where
  confirmed : .confirmed ∉ l
  asked : ¬ Asked l
  resume : .resume ∉ l

theorem untouched_nil : Untouched [] := ⟨by simp, by simp [Asked], by simp⟩

/-- What has happened to a child in the given state. -/
def Fits (l : List Event) : HelperState → Prop
  | .notStarted => .suspend ∉ l ∧ .resumed ∉ l ∧ Untouched l
  | .cancellationPending => Requested l ∧ .suspend ∉ l ∧ Untouched l
  | .running => ¬ Requested l ∧ .suspend ∈ l ∧ .resumed ∉ l ∧ Untouched l
  | .cancelling => Requested l ∧ Untouched l
  | .ready => .confirmed ∉ l ∧ .mustResume false ∉ l ∧ .resume ∉ l
  | _ => True

/-- The loops of `await_suspend()` and `handleResumeWithoutSuspend()`. -/
def Frame.isLoop : Frame → Bool
  | .suspendLoop _ => true
  | .reportLoop _ _ => true
  | _ => false

/-- These loops are at the bottom of the stack. -/
def Bottom : List Frame → Prop
  | [] => True
  | f :: below => (f.isLoop = true → below = []) ∧ Bottom below

structure Proper (s : State n V Err) : Prop where
  obeys : ∀ j, Obeys Allowed (s.events j)
  fits : ∀ j, Fits (s.events j) (s.child j)
  unasked : ∀ j : Fin n, s.child j = .notStarted → Requested (s.events j) →
    .earlyCancel j ∈ s.stack
  asking : ∀ j : Fin n, .earlyCancel j ∈ s.stack →
    s.child j = .notStarted ∧ Requested (s.events j)
  once : ∀ j, s.stack.count (.earlyCancel j) ≤ 1
  taking : ∀ j : Fin n, .awaitResume j ∈ s.stack → s.child j ≠ .notStarted
  bottom : Bottom s.stack

theorem proper_init : Proper (State.init : State n V Err) where
  obeys := fun _ => obeys_nil
  fits := fun _ => ⟨by simp [State.init], by simp [State.init], untouched_nil⟩
  unasked := fun _ _ h => by simp [State.init, Requested] at h
  asking := fun _ h => by simp [State.init] at h
  once := fun _ => by simp [State.init]
  taking := fun _ h => by simp [State.init] at h
  bottom := trivial

/-- Nothing changes for the children. -/
theorem Proper.congr (hp : Proper s) (hch : u.child = s.child) (hev : u.events = s.events)
    (hst : u.stack = s.stack) : Proper u := by
  obtain ⟨h₁, h₂, h₃, h₄, h₅, h₆, h₇⟩ := hp
  refine ⟨?_, ?_, ?_, ?_, ?_, ?_, ?_⟩
  · rwa [hev]
  · rwa [hev, hch]
  · rwa [hev, hch, hst]
  · rwa [hch, hev, hst]
  · rwa [hst]
  · rwa [hch, hst]
  · rwa [hst]

theorem Proper.enterTaking {f : Frame} (hp : Proper s) (hf : ∀ j, f ≠ .earlyCancel j)
    (htake : ∀ j : Fin n, f = .awaitResume j → s.child j ≠ .notStarted)
    (hloop : f.isLoop = true → s.stack = []) : Proper (s.enter f) where
  obeys := hp.obeys
  fits := hp.fits
  unasked := fun j h₁ h₂ => List.mem_cons_of_mem _ (hp.unasked j h₁ h₂)
  asking := fun j h => by
    rcases List.mem_cons.1 h with h | h
    · exact absurd h.symm (hf j)
    · exact hp.asking j h
  once := fun j => by
    show (f :: s.stack).count _ ≤ 1
    rw [List.count_cons_of_ne (hf j)]
    exact hp.once j
  taking := fun j h => by
    rcases List.mem_cons.1 h with h | h
    · exact htake j h.symm
    · exact hp.taking j h
  bottom := ⟨hloop, hp.bottom⟩

theorem Proper.enter {f : Frame} (hp : Proper s)
    (hf : ∀ j, f ≠ .earlyCancel j ∧ f ≠ .awaitResume j) (hloop : f.isLoop = true → s.stack = []) :
    Proper (s.enter f) :=
  hp.enterTaking (fun j => (hf j).1) (fun j h => absurd h (hf j).2) hloop

theorem Proper.pop {f : Frame} {below : List Frame} (hp : Proper s) (hst : s.stack = f :: below)
    (hf : ∀ j, f ≠ .earlyCancel j) : Proper { s with stack := below } where
  obeys := hp.obeys
  fits := hp.fits
  unasked := fun j h₁ h₂ => by
    have hmem := hp.unasked j h₁ h₂
    rw [hst] at hmem
    rcases List.mem_cons.1 hmem with h | h
    · exact absurd h.symm (hf j)
    · exact h
  asking := fun j h => hp.asking j (hst ▸ List.mem_cons_of_mem f h)
  once := fun j => by
    have hone := hp.once j
    rw [hst, List.count_cons_of_ne (hf j)] at hone
    exact hone
  taking := fun j h => hp.taking j (hst ▸ List.mem_cons_of_mem f h)
  bottom := by
    have hb := hp.bottom
    rw [hst] at hb
    exact hb.2

/-- A child that is not being asked changes, for good. -/
theorem Proper.set {j : Fin n} {st : HelperState} {l : List Event} (hp : Proper s)
    (hch : u.child = Function.update s.child j st) (hev : u.events = Function.update s.events j l)
    (hst : u.stack = s.stack) (hno : .earlyCancel (j : ℕ) ∉ s.stack) (hl : Obeys Allowed l)
    (hf : Fits l st) (hne : st ≠ .notStarted) : Proper u where
  obeys := fun i => by
    rw [hev]
    by_cases hi : i = j
    · subst hi
      simpa using hl
    · simpa [hi] using hp.obeys i
  fits := fun i => by
    rw [hev, hch]
    by_cases hi : i = j
    · subst hi
      simpa using hf
    · simpa [hi] using hp.fits i
  unasked := fun i h₁ h₂ => by
    rw [hch] at h₁
    rw [hev] at h₂
    rw [hst]
    by_cases hi : i = j
    · subst hi
      rw [Function.update_self] at h₁
      exact absurd h₁ hne
    · rw [Function.update_of_ne hi] at h₁ h₂
      exact hp.unasked i h₁ h₂
  asking := fun i h => by
    rw [hst] at h
    rw [hch, hev]
    by_cases hi : i = j
    · subst hi
      exact absurd h hno
    · rw [Function.update_of_ne hi, Function.update_of_ne hi]
      exact hp.asking i h
  once := fun i => by
    rw [hst]
    exact hp.once i
  taking := fun i h => by
    rw [hst] at h
    rw [hch]
    by_cases hi : i = j
    · subst hi
      simpa using hne
    · rw [Function.update_of_ne hi]
      exact hp.taking i h
  bottom := by
    rw [hst]
    exact hp.bottom

/-! ### What the functions do -/

theorem Proper.resumeParent (hp : Proper s) : Proper s.resumeParent := by
  unfold State.resumeParent
  split_ifs
  · have hu : Proper { s with
        resumed := s.resumed ++ [s.child]
        checker := s.checker.resumed.getD s.checker } := hp.congr rfl rfl rfl
    exact hu.enter (f := .parent) (by simp) (by simp [Frame.isLoop])
  · exact hp

theorem Proper.invokes {err : Option Err} (hp : Proper s) (h : Invokes m s err u) : Proper u := by
  cases h with
  | last =>
    have hu : Proper { s with error := s.errorAfter err, count := s.count + 1 } :=
      hp.congr rfl rfl rfl
    exact hu.resumeParent
  | cancels =>
    have hu : Proper { s with error := s.errorAfter err } := hp.congr rfl rfl rfl
    exact hu.enter (by simp) (by simp [Frame.isLoop])
  | counts => exact hp.congr rfl rfl rfl

theorem Proper.muxInvoke {err : Option Err} (hp : Proper s) : Proper (s.muxInvoke m err) :=
  hp.invokes (invokes_muxInvoke m s err)

theorem Proper.move {j : Fin n} {st : HelperState} {l : List Event} (hp : Proper s)
    (hno : .earlyCancel (j : ℕ) ∉ s.stack) (hl : Obeys Allowed l) (hf : Fits l st)
    (hne : st ≠ .notStarted) : Proper (s.move j st l) :=
  hp.set rfl rfl rfl hno hl hf hne

theorem Untouched.append {l : List Event} {e : Event} (h : Untouched l) (h₁ : e ≠ .confirmed)
    (h₂ : ∀ a, e ≠ .mustResume a) (h₃ : e ≠ .resume) : Untouched (l ++ [e]) := by
  refine ⟨?_, ?_, ?_⟩
  · simp [h.confirmed, h₁.symm]
  · rintro ⟨a, ha⟩
    rcases List.mem_append.1 ha with ha | ha
    · exact h.asked ⟨a, ha⟩
    · exact h₂ a (List.mem_singleton.1 ha).symm
  · simp [h.resume, h₃.symm]

theorem Untouched.allowed {l : List Event} (h : Untouched l) : Allowed l .resume :=
  ⟨h.resume, h.confirmed, fun hmem => h.asked ⟨false, hmem⟩⟩

/-- The result of a child is taken. -/
theorem Proper.reportResult {j : Fin n} {st : HelperState} {l : List Event} (hp : Proper s)
    (hno : .earlyCancel (j : ℕ) ∉ s.stack) (hl : Obeys Allowed l) (ha : Allowed l .resume) :
    Proper ((s.move j st l).reportResult j) := by
  unfold State.reportResult
  rw [setState_move, record_move]
  have hu : Proper (s.move j .succeeded (l ++ [.resume])) :=
    hp.move hno (hl.append ha) trivial (by simp)
  refine hu.enterTaking (by simp) (fun i hi => ?_) (by simp [Frame.isLoop])
  obtain rfl : j = i := by simpa [Fin.ext_iff] using hi
  simp

/-- A child that is not being asked has completed. -/
theorem Proper.helperInvoke {j : Fin n} {st : HelperState} {l : List Event} {must : Bool}
    (hp : Proper s) (hno : .earlyCancel (j : ℕ) ∉ s.stack) (hl : Obeys Allowed l)
    (hreq : st = .cancelling → Requested l ∧ Untouched l) (hres : Allowed l .resume)
    (h : (s.move j st l).helperInvoke m j must = .ok t) : Proper t := by
  unfold State.helperInvoke at h
  rw [child_move] at h
  cases st with
  | cancelling =>
    obtain ⟨hr, hu⟩ := hreq rfl
    have ha : Allowed l (.mustResume must) := ⟨hu.asked, hr, hu.confirmed⟩
    simp only [record_move, setState_move] at h
    split_ifs at h with hm
    · cases h
      subst hm
      refine hp.reportResult hno (hl.append ha) ⟨?_, ?_, ?_⟩
      · simp [hu.resume]
      · simp [hu.confirmed]
      · have hfalse : .mustResume false ∉ l := fun hmem => hu.asked ⟨false, hmem⟩
        simp [hfalse]
    · cases h
      have hu : Proper (s.move j .cancelled (l ++ [.mustResume must])) :=
        hp.move hno (hl.append ha) trivial (by simp)
      exact hu.muxInvoke
  | running | ready =>
    cases h
    exact hp.reportResult hno hl hres
  | _ => cases h

/-- While a loop is in control, no call is in progress. -/
theorem Proper.empty {f : Frame} {below : List Frame} (hp : Proper s) (hst : s.stack = f :: below)
    (hf : f.isLoop = true) : below = [] := by
  have hb := hp.bottom
  rw [hst] at hb
  exact hb.1 hf

/-- A child is started. -/
theorem Proper.kickOff {j : Fin n} {must : Bool} (hp : Proper s)
    (hno : .earlyCancel (j : ℕ) ∉ s.stack)
    (hj : s.child j = .notStarted ∨ s.child j = .cancellationPending)
    (h : s.kickOff m j must = .ok t) : Proper t := by
  have hfits := hp.fits j
  have hl := hp.obeys j
  have hsus : .suspend ∉ s.events j ∧ Untouched (s.events j) := by
    rcases hj with hj | hj <;> rw [hj] at hfits
    · exact ⟨hfits.1, hfits.2.2⟩
    · exact ⟨hfits.2.1, hfits.2.2⟩
  obtain ⟨hsus, hunt⟩ := hsus
  have hunt' : Untouched (s.events j ++ [.suspend]) := hunt.append (by simp) (by simp) (by simp)
  have ha : Allowed (s.events j) .suspend := ⟨hsus, hunt.confirmed⟩
  unfold State.kickOff at h
  rw [setState_eq] at h
  simp only at h
  rcases hj with hj | hj <;> rw [hj] at hfits h
  · have hreq : ¬ Requested (s.events j) := fun hr => hno (hp.unasked j hj hr)
    rw [if_neg (show ¬ HelperState.notStarted = .cancellationPending by simp)] at h
    split_ifs at h
    · exact hp.helperInvoke hno hl (by simp) hunt.allowed h
    · cases h
      rw [record_move]
      have hu : Proper (s.move j .running (s.events j ++ [.suspend])) := by
        refine hp.move hno (hl.append ha) ⟨?_, by simp, ?_, hunt'⟩ (by simp)
        · simpa [Requested] using hreq
        · simpa using hfits.2.1
      exact hu.enter (by simp) (by simp [Frame.isLoop])
  · rw [if_pos (show HelperState.cancellationPending = .cancellationPending from rfl)] at h
    split_ifs at h
    · exact hp.helperInvoke hno hl (fun _ => ⟨hfits.1, hunt⟩) hunt.allowed h
    · cases h
      rw [record_move]
      have hu : Proper (s.move j .cancelling (s.events j ++ [.suspend])) := by
        refine hp.move hno (hl.append ha) ⟨?_, hunt'⟩ (by simp)
        simpa [Requested] using hfits.1
      exact hu.enter (by simp) (by simp [Frame.isLoop])

theorem Proper.suspend {j : Fin n} {must : Bool} (hp : Proper s)
    (hno : .earlyCancel (j : ℕ) ∉ s.stack) (h : s.suspend m j must = .ok t) : Proper t := by
  unfold State.suspend at h
  split at h
  · exact hp.kickOff hno (.inl ‹_›) h
  · exact hp.kickOff hno (.inr ‹_›) h
  · cases h
    exact hp.muxInvoke
  · cases h

/-- A child that has not been started is asked to cancel itself early. -/
theorem Proper.ask {j : Fin n} (hp : Proper s) (hno : .earlyCancel (j : ℕ) ∉ s.stack)
    (hj : s.child j = .notStarted) : Proper ((s.record j .earlyCancel).enter (.earlyCancel j)) := by
  have hfits := hp.fits j
  rw [hj] at hfits
  have hreq : ¬ Requested (s.events j) := fun hr => hno (hp.unasked j hj hr)
  have hother : ∀ i : Fin n, i ≠ j →
      ((s.record j .earlyCancel).enter (.earlyCancel j)).events i = s.events i :=
    fun i hi => Function.update_of_ne hi _ _
  have hself : ((s.record j .earlyCancel).enter (.earlyCancel j)).events j =
      s.events j ++ [.earlyCancel] := Function.update_self _ _ _
  refine ⟨fun i => ?_, fun i => ?_, fun i h₁ h₂ => ?_, fun i h => ?_, fun i => ?_, fun i h => ?_, ?_,
    hp.bottom⟩
  · by_cases hi : i = j
    · subst hi
      rw [hself]
      exact (hp.obeys i).append ⟨hreq, hfits.1⟩
    · rw [hother i hi]
      exact hp.obeys i
  · by_cases hi : i = j
    · subst hi
      rw [hself]
      show Fits _ (s.child i)
      rw [hj]
      exact ⟨by simpa using hfits.1, by simpa using hfits.2.1,
        hfits.2.2.append (by simp) (by simp) (by simp)⟩
    · rw [hother i hi]
      exact hp.fits i
  · by_cases hi : i = j
    · subst hi
      exact List.mem_cons_self
    · rw [hother i hi] at h₂
      exact List.mem_cons_of_mem _ (hp.unasked i h₁ h₂)
  · rcases List.mem_cons.1 h with h | h
    · obtain rfl : i = j := by simpa [Fin.ext_iff] using h
      rw [hself]
      exact ⟨hj, .inl (by simp)⟩
    · by_cases hi : i = j
      · subst hi
        exact absurd h hno
      · rw [hother i hi]
        exact hp.asking i h
  · show (Frame.earlyCancel j :: s.stack).count _ ≤ 1
    rw [List.count_cons]
    split_ifs with hi
    · have hi' : (j : ℕ) = i := by simpa using hi
      rw [← hi', List.count_eq_zero.2 hno]
    · exact hp.once i
  · rcases List.mem_cons.1 h with h | h
    · cases h
    · exact hp.taking i h
  · simp [Frame.isLoop]

/-- `internalCancel()` gets to a child. -/
theorem Proper.cancel {cause : Cause} {all : Bool} {j : Fin n} (hp : Proper s)
    (hno : .earlyCancel (j : ℕ) ∉ s.stack) : Proper (s.cancel cause all j) := by
  have hloop : ∀ b, Proper (s.enter (.cancelLoop cause (j + 1) b)) :=
    fun b => hp.enter (by simp) (by simp [Frame.isLoop])
  have hno' : ∀ b, .earlyCancel (j : ℕ) ∉ (s.enter (.cancelLoop cause (j + 1) b)).stack := by
    intro b
    simpa [State.enter] using hno
  have hfits := hp.fits j
  unfold State.cancel
  split
  · exact (hloop all).ask (hno' all) ‹_›
  · rename_i hj
    rw [hj] at hfits
    obtain ⟨hreq, hsus, hres, hunt⟩ := hfits
    rw [setState_eq, record_move]
    have hu : Proper ((s.enter (.cancelLoop cause (j + 1) all)).move j .cancelling
        (s.events j ++ [.cancel])) := by
      refine (hloop all).move (hno' all) ((hp.obeys j).append ⟨hreq, hsus, hres⟩) ⟨?_, ?_⟩ (by simp)
      · exact .inr (by simp)
      · exact hunt.append (by simp) (by simp) (by simp)
    exact hu.enter (by simp) (by simp [Frame.isLoop])
  · exact hloop all
  · exact hloop false

/-- A child that has been asked early has answered. -/
theorem Proper.answered {j : Fin n} {below : List Frame} {st : HelperState} {l : List Event}
    (hp : Proper s) (hst : s.stack = .earlyCancel j :: below) (hl : Obeys Allowed l)
    (hf : Fits l st) (hne : st ≠ .notStarted) :
    Proper ({ s with stack := below }.move j st l) := by
  have hone := hp.once j
  rw [hst, List.count_cons_self] at hone
  have hno : .earlyCancel (j : ℕ) ∉ below := List.count_eq_zero.1 (by omega)
  have hother : ∀ i : Fin n, i ≠ j → (.earlyCancel (i : ℕ) ∈ s.stack ↔ .earlyCancel (i : ℕ) ∈ below) := by
    intro i hi
    rw [hst, List.mem_cons]
    have hne : ¬ Frame.earlyCancel i = .earlyCancel j := by simpa [Fin.ext_iff] using hi
    simp [hne]
  refine ⟨fun i => ?_, fun i => ?_, fun i h₁ h₂ => ?_, fun i h => ?_, fun i => ?_, fun i h => ?_, ?_⟩
  · by_cases hi : i = j
    · subst hi
      simpa using hl
    · simpa [State.move, hi] using hp.obeys i
  · by_cases hi : i = j
    · subst hi
      simpa using hf
    · simpa [State.move, hi] using hp.fits i
  · by_cases hi : i = j
    · subst hi
      rw [child_move] at h₁
      exact absurd h₁ hne
    · refine (hother i hi).1 (hp.unasked i ?_ ?_)
      · simpa [State.move, hi] using h₁
      · simpa [State.move, hi] using h₂
  · by_cases hi : i = j
    · subst hi
      exact absurd h hno
    · simpa [State.move, hi] using hp.asking i ((hother i hi).2 h)
  · have hle := hp.once i
    rw [hst, List.count_cons] at hle
    show below.count _ ≤ 1
    omega
  · by_cases hi : i = j
    · subst hi
      simpa using hne
    · have htake := hp.taking i (by rw [hst]; exact List.mem_cons_of_mem _ h)
      simpa [State.move, hi] using htake
  · have hb := hp.bottom
    rw [hst] at hb
    exact hb.2

/-- A child that has its handle has been started. -/
theorem Proper.not_asking_of_holds {j : Fin n} (hp : Proper s) (hh : holds (s.events j) = true) :
    .earlyCancel (j : ℕ) ∉ s.stack := by
  intro hmem
  have hfits := hp.fits j
  rw [(hp.asking j hmem).1] at hfits
  simp only [holds, Bool.and_eq_true, List.contains_iff_mem] at hh
  exact hfits.1 hh.1.1.1

theorem Proper.confirmed {j : Fin n} {below : List Frame} (hp : Proper s)
    (hst : s.stack = .earlyCancel j :: below) :
    Proper ({ s with stack := below }.move j .cancelled (s.events j ++ [Event.confirmed])) :=
  hp.answered hst ((hp.obeys j).append trivial) trivial (by simp)

theorem Proper.earlyCancelReturns {done : Bool} (hp : Proper s)
    (h : s.earlyCancelReturns m done = .ok t) : Proper t := by
  unfold State.earlyCancelReturns at h
  split at h
  · rename_i k below hst
    simp only at h
    split_ifs at h with hk hd hb
    · cases h
      rw [record_eq, setState_move]
      exact (hp.confirmed (j := ⟨k, hk⟩) hst).muxInvoke
    · cases h
      rw [record_eq, setState_move]
      exact hp.confirmed (j := ⟨k, hk⟩) hst
    · -- The child has not confirmed: it is started, and cancelled then.
      obtain ⟨hj, hreq⟩ := hp.asking ⟨k, hk⟩ (by rw [hst]; exact List.mem_cons_self)
      have hfits := hp.fits ⟨k, hk⟩
      rw [hj] at hfits
      have hu : Proper ({ s with stack := below }.move ⟨k, hk⟩ .cancellationPending
          (s.events ⟨k, hk⟩)) :=
        hp.answered hst (hp.obeys ⟨k, hk⟩) ⟨hreq, hfits.1, hfits.2.2⟩ (by simp)
      rw [setState_eq] at h
      split at h
      · rename_i cause j all below'
        cases h
        exact (hu.pop rfl (by simp)).enter (f := .cancelLoop cause j false) (by simp)
          (by simp [Frame.isLoop])
      · cases h
      · cases h
  · cases h

theorem Proper.cancelReturns {done : Bool} (hp : Proper s)
    (h : s.cancelReturns m done = .ok t) : Proper t := by
  unfold State.cancelReturns at h
  split at h
  · rename_i k cause i all below hst
    have hpop := hp.pop hst (by simp)
    split_ifs at h with hk hd hh hab
    · cases h
      rw [record_eq, setState_move]
      refine Proper.muxInvoke (hpop.move ?_ ((hp.obeys ⟨k, hk⟩).append trivial) trivial (by simp))
      intro hmem
      exact hp.not_asking_of_holds hh (by rw [hst]; exact List.mem_cons_of_mem _ hmem)
    · cases h
      exact (hpop.pop rfl (by simp)).enter (f := .cancelLoop cause i _) (by simp)
        (by simp [Frame.isLoop])
  · cases h

theorem Proper.suspendThrows {err : Err} (hp : Proper s)
    (h : s.suspendThrows m err = .ok t) : Proper t := by
  unfold State.suspendThrows at h
  split at h
  · rename_i k below hst
    have hpop := hp.pop hst (by simp)
    split_ifs at h with hk hh
    · cases h
      rw [record_eq, setState_move]
      refine Proper.muxInvoke (hpop.move ?_ ((hp.obeys ⟨k, hk⟩).append trivial) trivial (by simp))
      intro hmem
      exact hp.not_asking_of_holds hh (by rw [hst]; exact List.mem_cons_of_mem _ hmem)
  · cases h

theorem Proper.resumeReturns {result : Except Err V} (hp : Proper s)
    (h : s.resumeReturns m result = .ok t) : Proper t := by
  unfold State.resumeReturns at h
  split at h
  · rename_i k below hst
    have hpop := hp.pop hst (by simp)
    split_ifs at h with hk
    · cases result with
      | ok v =>
        cases h
        exact Proper.muxInvoke (hpop.congr rfl rfl rfl)
      | error err =>
        cases h
        rw [setState_eq]
        refine Proper.muxInvoke (hpop.move (fun hmem => ?_) (hp.obeys ⟨k, hk⟩) trivial (by simp))
        have htake := hp.taking ⟨k, hk⟩ (by rw [hst]; exact List.mem_cons_self)
        exact htake (hpop.asking ⟨k, hk⟩ hmem).1
  · cases h

/-- The result of a child is reported without suspension. -/
theorem Proper.reportImmediateResult {j : Fin n} {must : Bool} (hp : Proper s)
    (hno : .earlyCancel (j : ℕ) ∉ s.stack)
    (h : s.reportImmediateResult m j must = .ok t) : Proper t := by
  have hfits := hp.fits j
  have hl := hp.obeys j
  unfold State.reportImmediateResult at h
  by_cases hj : s.child j = .cancellationPending
  · rw [hj] at hfits
    obtain ⟨hreq, -, hunt⟩ := hfits
    have ha : Allowed (s.events j) (.mustResume must) := ⟨hunt.asked, hreq, hunt.confirmed⟩
    rw [if_pos hj, record_eq, setState_move] at h
    simp only [child_move] at h
    cases must with
    | true =>
      cases h
      refine hp.reportResult hno (hl.append ha) ⟨?_, ?_, ?_⟩
      · simp [hunt.resume]
      · simp [hunt.confirmed]
      · have hfalse : .mustResume false ∉ s.events j := fun hmem => hunt.asked ⟨false, hmem⟩
        simp [hfalse]
    | false =>
      cases h
      have hu : Proper (s.move j .cancelled (s.events j ++ [.mustResume false])) :=
        hp.move hno (hl.append ha) trivial (by simp)
      exact hu.muxInvoke
  · rw [if_neg hj] at h
    simp only at h
    split at h
    · cases h
      exact hp.muxInvoke
    · rename_i hj'
      rw [hj'] at hfits
      split_ifs at h
      · cases h
        rw [← move_self (s := s) j]
        exact hp.reportResult hno hl hfits.2.2.allowed
      · cases h
        exact hp.ask hno hj'
    · rename_i hj'
      rw [hj'] at hfits
      cases h
      rw [← move_self (s := s) j]
      exact hp.reportResult hno hl ⟨hfits.2.2, hfits.1, hfits.2.1⟩
    · cases h

/-- `await_must_resume()` of the mux. -/
theorem Proper.askAll {must : Fin n → Bool} (hp : Proper s) : Proper (s.askAll must) := by
  have hpend : ∀ j, s.child j = .cancellationPending →
      (s.askAll must).events j = s.events j ++ [.mustResume (must j)] ∧
        (s.askAll must).child j = if must j then .ready else .cancelled := by
    intro j hj
    simp [State.askAll, hj]
  have hother : ∀ j, s.child j ≠ .cancellationPending →
      (s.askAll must).events j = s.events j ∧ (s.askAll must).child j = s.child j := by
    intro j hj
    simp [State.askAll, hj]
  have hne : ∀ j : Fin n, (s.askAll must).child j = .notStarted →
      s.child j ≠ .cancellationPending := by
    intro j hj hpj
    rw [(hpend j hpj).2] at hj
    split_ifs at hj
  refine ⟨fun j => ?_, fun j => ?_, fun j h₁ h₂ => ?_, fun j h => ?_, hp.once, fun j h hj => ?_,
    hp.bottom⟩
  · by_cases hj : s.child j = .cancellationPending
    · have hfits := hp.fits j
      rw [hj] at hfits
      rw [(hpend j hj).1]
      exact (hp.obeys j).append ⟨hfits.2.2.asked, hfits.1, hfits.2.2.confirmed⟩
    · rw [(hother j hj).1]
      exact hp.obeys j
  · by_cases hj : s.child j = .cancellationPending
    · have hfits := hp.fits j
      rw [hj] at hfits
      obtain ⟨-, -, hunt⟩ := hfits
      obtain ⟨he, hc⟩ := hpend j hj
      rw [he, hc]
      have hfalse : .mustResume false ∉ s.events j := fun hmem => hunt.asked ⟨false, hmem⟩
      split_ifs with hm
      · exact ⟨by simp [hunt.confirmed], by simp [hfalse, hm], by simp [hunt.resume]⟩
      · trivial
    · rw [(hother j hj).1, (hother j hj).2]
      exact hp.fits j
  · have hj := hne j h₁
    rw [(hother j hj).2] at h₁
    rw [(hother j hj).1] at h₂
    exact hp.unasked j h₁ h₂
  · obtain ⟨hj, hreq⟩ := hp.asking j h
    have hj' : s.child j ≠ .cancellationPending := by simp [hj]
    rw [(hother j hj').1, (hother j hj').2]
    exact ⟨hj, hreq⟩
  · have hj' := hne j hj
    rw [(hother j hj').2] at hj
    exact hp.taking j h hj

/-! ### The steps -/

theorem Proper.cancelled {cause : Cause} {all : Bool} (hp : Proper s)
    (h : s.cancelled m cause all = .ok t) : Proper t := by
  unfold State.cancelled at h
  cases cause with
  | invoke =>
    simp only at h
    split_ifs at h
    · cases h
      exact (hp.congr (u := { s with count := s.count + 1 }) rfl rfl rfl).resumeParent
    · cases h
      exact hp.congr rfl rfl rfl
  | earlyCancel =>
    simp only at h
    split_ifs at h
    cases h
    exact hp.congr rfl rfl rfl
  | awaitCancel =>
    simp only at h
    have hu : Proper { s with
        muted := false
        returned := s.returned ++ [(.awaitCancel, all)]
        checker := (s.checker.cancelReturned all).getD s.checker } := hp.congr rfl rfl rfl
    split_ifs at h
    · cases h
      exact hu.resumeParent
    · cases h
      exact hu

theorem takeResults_eq (h : s.takeResults m = .ok t) : t = s := by
  unfold State.takeResults at h
  split_ifs at h
  cases h
  rfl

theorem Proper.next {must : Bool} (hp : Proper s) (hg : s.asksAgain = false)
    (h : s.next m must = .ok t) : Proper t := by
  unfold State.next at h
  split at h
  · rename_i k below hst
    have hpop := hp.pop hst (by simp)
    obtain rfl := hp.empty hst rfl
    split_ifs at h with hk
    · have hu : Proper { s with stack := [.suspendLoop (k + 1)] } :=
        hpop.enter (f := .suspendLoop (k + 1)) (by simp) fun _ => rfl
      exact hu.suspend (by simp) h
    · cases h
      exact hpop
  · rename_i cause k all below hst
    have hpop := hp.pop hst (by simp)
    split_ifs at h with hk
    · cases h
      refine hpop.cancel ?_
      simpa [State.asksAgain, hst] using hg
    · exact hpop.cancelled h
  · rename_i k first below hst
    have hpop := hp.pop hst (by simp)
    obtain rfl := hp.empty hst rfl
    have hu : Proper { s with stack := [.reportLoop (k + 1) first] } :=
      hpop.enter (f := .reportLoop (k + 1) first) (by simp) fun _ => rfl
    split_ifs at h
    · cases h
      exact hu
    · exact hu.reportImmediateResult (by simp) h
    · cases takeResults_eq h
      exact hpop
  · cases h

/-- A child resumes its handle. -/
theorem Proper.resumes {j : Fin n} {must : Bool} (hp : Proper s) (hh : holds (s.events j) = true)
    (h : (s.record j .resumed).helperInvoke m j must = .ok t) : Proper t := by
  have hno := hp.not_asking_of_holds hh
  have hfits := hp.fits j
  have hl : Obeys Allowed (s.events j ++ [Event.resumed]) := (hp.obeys j).append trivial
  rw [record_eq] at h
  cases hj : s.child j with
  | running =>
    rw [hj] at hfits h
    have hunt := hfits.2.2.2.append (e := .resumed) (by simp) (by simp) (by simp)
    exact hp.helperInvoke hno hl (by simp) hunt.allowed h
  | cancelling =>
    rw [hj] at hfits h
    have hunt := hfits.2.append (e := .resumed) (by simp) (by simp) (by simp)
    refine hp.helperInvoke hno hl (fun _ => ⟨?_, hunt⟩) hunt.allowed h
    simpa [Requested] using hfits.1
  | ready =>
    rw [hj] at hfits h
    refine hp.helperInvoke hno hl (by simp) ⟨?_, ?_, ?_⟩ h
    · simpa using hfits.2.2
    · simpa using hfits.1
    · simpa using hfits.2.1
  | _ => simp [State.helperInvoke, hj] at h

theorem Proper.internal {a : Action n V Err} (hp : Proper s) (hg : Unasked s a)
    (h : s.internal m a = .ok t) : Proper t := by
  cases a with
  | next => exact hp.next hg h
  | becomesReady =>
    cases h
    exact hp.congr rfl rfl rfl
  | resumes =>
    simp only [State.internal] at h
    split_ifs at h with hh
    exact hp.resumes hh.2.1 h
  | suspendReturns =>
    simp only [State.internal] at h
    split at h
    · rename_i hst
      cases h
      exact hp.pop hst (by simp)
    · cases h
  | suspendThrows => exact hp.suspendThrows h
  | earlyCancelReturns => exact hp.earlyCancelReturns h
  | cancelReturns => exact hp.cancelReturns h
  | resumeReturns => exact hp.resumeReturns h
  | parentReturns =>
    simp only [State.internal] at h
    split at h
    · rename_i hst
      cases h
      exact hp.pop hst (by simp)
    · cases h
  | _ => cases h

theorem check_eq {c : Option Checker} (h : s.check c = .ok t) : ∃ c', c = some c' ∧
    t = { s with checker := c' } := by
  cases c with
  | some c =>
    cases h
    exact ⟨c, rfl, rfl⟩
  | none => cases h

theorem Proper.prepare {a : Action n V Err} (hp : Proper s) (hst : s.stack = [])
    (h : s.prepare m a = .ok t) : Proper t := by
  cases a with
  | awaitReady =>
    obtain ⟨val, -, h⟩ := bind_eq_ok.1 h
    obtain ⟨c, -, rfl⟩ := check_eq h
    exact hp.congr rfl rfl rfl
  | awaitEarlyCancel =>
    simp only [State.prepare] at h
    split_ifs at h
    cases h
    exact hp.enter (by simp) (by simp [Frame.isLoop])
  | awaitSetExecutor =>
    obtain ⟨c, -, rfl⟩ := check_eq h
    exact hp.congr rfl rfl rfl
  | awaitSuspend =>
    obtain ⟨u, hu, h⟩ := bind_eq_ok.1 h
    obtain ⟨c, -, rfl⟩ := check_eq hu
    cases h
    have hu : Proper { s with checker := c, bound := true, parent := true } := hp.congr rfl rfl rfl
    exact hu.enter (by simp) fun _ => hst
  | _ => cases h

/-- The parent takes the result, with or without having been suspended. -/
theorem Proper.resumeWithoutSuspend {must : Bool} (hp : Proper s)
    (hst : s.bound = true ∨ s.stack = []) (h : s.resumeWithoutSuspend m must = .ok t) :
    Proper t := by
  unfold State.resumeWithoutSuspend at h
  split_ifs at h with hb
  · cases takeResults_eq h
    exact hp
  · have hempty := hst.resolve_left hb
    simp only at h
    split at h
    · cases h
    · rename_i j _
      have hu : Proper ({ s with bound := true }.enter (.reportLoop 0 j)) :=
        (hp.congr (u := { s with bound := true }) rfl rfl rfl).enter (by simp) fun _ => hempty
      refine hu.reportImmediateResult ?_ h
      simp [State.enter, hempty]

theorem Proper.perform {a : Action n V Err} (hp : Proper s) (hst : s.bound = true ∨ s.stack = [])
    (h : s.perform m a = .ok t) : Proper t := by
  cases a with
  | awaitCancel =>
    obtain ⟨u, hu, h⟩ := bind_eq_ok.1 h
    obtain ⟨c, -, rfl⟩ := check_eq hu
    cases h
    have hu : Proper { s with checker := c, muted := true } := hp.congr rfl rfl rfl
    exact hu.enter (by simp) (by simp [Frame.isLoop])
  | awaitMustResume must =>
    obtain ⟨⟨answer, u⟩, hu, h⟩ := bind_eq_ok.1 h
    obtain ⟨c, -, rfl⟩ := check_eq h
    have hu' : u = s ∨ u = s.askAll must := by
      unfold State.awaitMustResume at hu
      simp only at hu
      split_ifs at hu <;> cases hu
      · exact .inl rfl
      · exact .inr rfl
    rcases hu' with rfl | rfl
    · exact hp.congr rfl rfl rfl
    · exact hp.askAll.congr rfl rfl rfl
  | awaitResume must =>
    obtain ⟨u, hu, h⟩ := bind_eq_ok.1 h
    obtain ⟨c, -, rfl⟩ := check_eq hu
    have hu : Proper { s with checker := c } := hp.congr rfl rfl rfl
    exact hu.resumeWithoutSuspend hst h
  | _ => cases h

theorem Proper.step {a : Action n V Err} (hp : Proper s) (hg : Unasked s a)
    (h : step m s a = .ok t) : Proper t := by
  unfold Wait.step at h
  split at h
  · exact hp.internal hg h
  · split_ifs at h with hst
    exact hp.prepare hst h
  · split_ifs at h with hst
    exact hp.perform hst.2 h

theorem proper_of_reach (h : Reach (step m) Unasked (.init : State n V Err) s) : Proper s :=
  h.invariant proper_init fun _ _ _ hp hg hs => hp.step hg hs

/-! ### The result -/

/-- A cancellation is requested. -/
def Event.requests : Event → Bool
  | .earlyCancel => true
  | .cancel => true
  | _ => false

/-- `await_must_resume()` is called. -/
def Event.asks : Event → Bool
  | .mustResume _ => true
  | _ => false

theorem requests_once {l : List Event} {e : Event} (ha : Allowed l e) (he : e.requests = true) :
    ∀ e' ∈ l, e'.requests = false := by
  intro e' hmem
  by_contra h
  have hreq : Requested l := by
    cases e' <;> simp [Event.requests] at h
    · exact .inl hmem
    · exact .inr hmem
  cases e <;> simp [Event.requests] at he
  · exact ha.1 hreq
  · exact ha.1 hreq

theorem asks_once {l : List Event} {e : Event} (ha : Allowed l e) (he : e.asks = true) :
    ∀ e' ∈ l, e'.asks = false := by
  intro e' hmem
  by_contra h
  have hasked : Asked l := by
    cases e' <;> simp [Event.asks] at h
    exact ⟨_, hmem⟩
  cases e <;> simp [Event.asks] at he
  exact ha.1 hasked

/-- Every call that the mux makes of the awaiter of a child is allowed by what has happened before;
in particular each child is asked to cancel itself at most once, suspended at most once, asked at
most once whether it must be resumed, and its result is taken at most once. -/
theorem calls_allowed (h : Reach (step m) Unasked (.init : State n V Err) s) (j : Fin n) :
    Obeys Allowed (s.events j) ∧
    (s.events j).countP Event.requests ≤ 1 ∧
    (s.events j).count .suspend ≤ 1 ∧
    (s.events j).countP Event.asks ≤ 1 ∧
    (s.events j).count .resume ≤ 1 := by
  have ho := (proper_of_reach h).obeys j
  refine ⟨ho, ho.countP_le_one fun _ _ => requests_once, ?_, ho.countP_le_one fun _ _ => asks_once,
    ?_⟩
  · refine ho.countP_le_one fun l e ha he e' hmem => ?_
    obtain rfl : e = .suspend := by simpa using he
    by_contra h
    obtain rfl : e' = .suspend := by simpa using h
    exact ha.1 hmem
  · refine ho.countP_le_one fun l e ha he e' hmem => ?_
    obtain rfl : e = .resume := by simpa using he
    by_contra h
    obtain rfl : e' = .resume := by simpa using h
    exact ha.1 hmem

/-- `anyOf()`, as a tuple. -/
def anyOf (n : ℕ) : Kind n := ⟨.anyOf, false, fun _ => false, fun _ => false⟩

/-- Three children: the first one is suspended; `second` is ready, so the first one is cancelled,
which it does not confirm yet; and `await_early_cancel()` of the third one, which has not been
started, is being called. -/
def asksThird (second : Fin 3) : List (Action 3 ℕ ℕ) :=
  [.awaitReady, .awaitSetExecutor, .awaitSuspend, .next false, .suspendReturns, .becomesReady second,
    .next false, .resumeReturns (.ok 1), .next false, .cancelReturns false, .next false,
    .next false]

theorem calls_allowed_asksThird :
    ∃ s, exec (step (anyOf 3)) (.init : State 3 ℕ ℕ) (asksThird 1) = .ok s ∧
      s.events 2 = [.earlyCancel] ∧ (s.events 0).countP Event.requests ≤ 1 := by
  have hm : Meets (step (anyOf 3)) Unasked (.init : State 3 ℕ ℕ) (asksThird 1) := by decide
  refine ⟨_, rfl, rfl, ?_⟩
  exact (calls_allowed (reach_of_exec hm rfl) 0).2.1

/-- Within `await_early_cancel()` of the third child the first one resumes its handle, with a result,
so `internalCancel()` is called once more and gets to the third child again. -/
theorem not_calls_allowed :
    ∃ s, exec (step (anyOf 3)) (.init : State 3 ℕ ℕ) (asksThird 1 ++
        [.resumes 0 true, .resumeReturns (.ok 0), .next false, .next false, .next false]) = .ok s ∧
      s.events 2 = [.earlyCancel, .earlyCancel] := ⟨_, rfl, rfl⟩

end Corral.Wait
