import Corral.CBPortal.Model
import Corral.Executor.Capture

/-!
# `CBPortal`: what holds in every state

* `upNext`: the callback that the executors will start before any other code has control;
* `State.held`: what a mux has got for the task whose step this is;
* `Sound`: the portals and the tasks fit together, and no argument of a callback has been lost;
* `Calm`: no task is about to take its result, which is so while other code has control.
-/

namespace Corral.CBPortal

open ActionMachine
open Executor (ListRef userInControl)

variable {E L P T V : Type*} [DecidableEq P] {loop : E → L} {ex : T → E} {s t u : State E P T V}
  {x y : T} {p q : P} {v : V}

/-- The callback at the front of a list. -/
def front : List (Executor.Task E) → Option ℕ
  | .callback id :: _ => some id
  | _ => none

/-- The front of the list that is being drained, or that the `capture()` in control will drain. -/
def upNext (s : Executor.State E) : Option ℕ :=
  match s.stack with
  | .capture e k _ :: _ => front (s.lists (.tmp e k))
  | .drain _ tasks _ _ :: _ => front (s.lists tasks)
  | _ => none

/-- The task is about to take this result. -/
def Status.result (p : P) : Status P V → List V
  | .ready (some aw) => match aw.got with
    | some (q, v) => if q = p then [v] else []
    | none => []
  | _ => []

/-- What a mux has got from the portal, while it has not been taken by the task. -/
def State.held (s : State E P T V) (p : P) : List V :=
  match (upNext s.exec).bind s.job with
  | some x => (s.status x).result p
  | none => []

structure Sound (ex : T → E) (s : State E P T V) : Prop where
  jobs : ∀ id x, s.job id = some x → id < s.exec.nextId
  parents : ∀ p h, s.parent p = some h → s.executor p = some (ex h.owner)
  children : ∀ p x w, s.parent p = some (.child x w) → w < s.awaits x ∧
    ∀ aw, s.status x = .waiting aw → aw.number = w →
      p ∈ aw.await.portals ∧ ∃ q qs, aw.await.awaiter = .anyOf q qs
  waits : ∀ x aw, s.status x = .waiting aw → aw.number < s.awaits x ∧ aw.got = none ∧
    ∀ p ∈ aw.await.portals,
      s.parent p = some (aw.await.handle x aw.number) ∧ s.value p = none
  next : ∀ x aw, s.status x = .ready (some aw) → (upNext s.exec).bind s.job = some x ∧
    (aw.got.isSome = true → ∃ q qs, aw.await.awaiter = .anyOf q qs) ∧
    ∀ y aw', s.status y = .waiting aw' → ∀ p ∈ aw.await.portals, p ∉ aw'.await.portals
  args : ∀ p, s.args p = s.results p ++ s.held p ++ (s.value p).toList

omit [DecidableEq P] in
theorem lift_eq_ok {r : Except Executor.Fault (Executor.State E)} :
    s.lift r = .ok t ↔ ∃ e, r = .ok e ∧ t = { s with exec := e } := by
  unfold State.lift
  rcases r with (_ | _) | e
  · simp
  · simp
  · simp [eq_comm]

/-- No task is about to take its result. -/
def Calm (s : State E P T V) : Prop := ∀ x aw, s.status x ≠ .ready (some aw)

theorem Calm.held (hc : Calm s) (p : P) : s.held p = [] := by
  unfold State.held
  split
  · rename_i x hx
    cases hst : s.status x with
    | ready aw => cases aw with
      | none => rfl
      | some aw => exact absurd hst (hc x aw)
    | _ => rfl
  · rfl

theorem sound_init : Sound ex (State.init : State E P T V) := by
  refine ⟨?_, ?_, ?_, ?_, ?_, fun p => rfl⟩
  · rintro id x ⟨⟩
  · rintro p h ⟨⟩
  · rintro p x w ⟨⟩
  · rintro x aw ⟨⟩
  · rintro x aw ⟨⟩

/-- While other code has control, no task is about to take its result. -/
theorem Sound.calm (hs : Sound ex s) (hu : s.userCode = true) : Calm s := by
  intro x aw hx
  have hn := (hs.next x aw hx).1
  unfold upNext at hn
  unfold State.userCode at hu
  split at hn
  · rename_i e k old below hst
    rw [hst] at hu
    simp only [Bool.not_eq_true'] at hu
    unfold State.isUrgent at hu
    unfold front at hn
    split at hn
    · rename_i id rest hl
      have hjob : s.job id = some x := hn
      simp only [hl, hjob, hx] at hu
      cases hu
    · cases hn
  · rename_i hst
    rw [hst] at hu
    cases hu
  · cases hn

/-- The fields that the invariant is about. -/
theorem Sound.congr (hs : Sound ex s) (hexec : u.exec = s.exec) (hjob : u.job = s.job)
    (hst : u.status = s.status) (haw : u.awaits = s.awaits) (hval : u.value = s.value)
    (hpar : u.parent = s.parent) (hex : u.executor = s.executor) (harg : u.args = s.args)
    (hres : u.results = s.results) : Sound ex u := by
  have hheld : u.held = s.held := by
    funext p
    unfold State.held
    rw [hexec, hjob, hst]
  obtain ⟨h₁, h₂, h₃, h₄, h₅, h₆⟩ := hs
  refine ⟨?_, ?_, ?_, ?_, ?_, ?_⟩
  · rwa [hexec, hjob]
  · rwa [hpar, hex]
  · rwa [hpar, haw, hst]
  · rwa [hst, haw, hpar, hval]
  · rwa [hst, hexec, hjob]
  · rwa [harg, hres, hval, hheld]

/-- A step from one calm state to another. -/
theorem Sound.of_calm (hs : Sound ex s) (hc : Calm s) (hc' : Calm u)
    (hjobs : ∀ id x, u.job id = some x → id < u.exec.nextId)
    (hparents : ∀ p h, u.parent p = some h → u.executor p = some (ex h.owner))
    (hchildren : ∀ p x w, u.parent p = some (.child x w) → w < u.awaits x ∧
      ∀ aw, u.status x = .waiting aw → aw.number = w →
        p ∈ aw.await.portals ∧ ∃ q qs, aw.await.awaiter = .anyOf q qs)
    (hwaits : ∀ x aw, u.status x = .waiting aw → aw.number < u.awaits x ∧ aw.got = none ∧
      ∀ p ∈ aw.await.portals,
        u.parent p = some (aw.await.handle x aw.number) ∧ u.value p = none)
    (hargs : ∀ p, s.args p = s.results p ++ (s.value p).toList →
      u.args p = u.results p ++ (u.value p).toList) : Sound ex u := by
  refine ⟨hjobs, hparents, hchildren, hwaits, fun x aw h => absurd h (hc' x aw), fun p => ?_⟩
  have h := hs.args p
  rw [hc.held, List.append_nil] at h
  rw [hc'.held, List.append_nil]
  exact hargs p h

/-- Tasks stop waiting, and handles are taken out of the portals that nobody waits on. -/
theorem Sound.change (hs : Sound ex s) (hc : Calm s) (hc' : Calm u)
    (hjobs : ∀ id x, u.job id = some x → id < u.exec.nextId)
    (haw : u.awaits = s.awaits) (hex : u.executor = s.executor)
    (hpar : ∀ p, u.parent p = s.parent p ∨ u.parent p = none)
    (hkeep : ∀ x aw, u.status x = .waiting aw → s.status x = .waiting aw ∧
      ∀ p ∈ aw.await.portals, u.parent p = s.parent p ∧ u.value p = s.value p)
    (hargs : ∀ p, s.args p = s.results p ++ (s.value p).toList →
      u.args p = u.results p ++ (u.value p).toList) : Sound ex u := by
  have hsub : ∀ p h, u.parent p = some h → s.parent p = some h := by
    intro p h hp
    rcases hpar p with hu | hu
    · rwa [hu] at hp
    · rw [hu] at hp
      cases hp
  refine hs.of_calm hc hc' hjobs (fun p h hp => ?_) (fun p x w hp => ?_) (fun x aw hx => ?_) hargs
  · rw [hex]
    exact hs.parents p h (hsub p h hp)
  · obtain ⟨h₁, h₂⟩ := hs.children p x w (hsub p _ hp)
    rw [haw]
    exact ⟨h₁, fun aw hx => h₂ aw (hkeep x aw hx).1⟩
  · obtain ⟨hx, hk⟩ := hkeep x aw hx
    obtain ⟨h₁, h₂, h₃⟩ := hs.waits x aw hx
    rw [haw]
    refine ⟨h₁, h₂, fun p hp => ?_⟩
    obtain ⟨hk₁, hk₂⟩ := hk p hp
    rw [hk₁, hk₂]
    exact h₃ p hp

/-- Only the executors do something, and the jobs stay. -/
theorem Sound.setExec {e : Executor.State E} (hs : Sound ex s) (hc : Calm s)
    (hn : s.exec.nextId ≤ e.nextId) : Sound ex { s with exec := e } :=
  hs.change hc hc (fun id x h => (hs.jobs id x h).trans_le hn) rfl rfl (fun _ => .inl rfl)
    (fun _ _ hx => ⟨hx, fun _ _ => ⟨rfl, rfl⟩⟩) fun _ => id

/-- The portals of a proxy are destroyed, which nobody waits on. -/
theorem Sound.destroyProxy {a : Await P} (hs : Sound ex s) (hc : Calm s)
    (hps : ∀ p ∈ a.portals, ∀ x aw, s.status x = .waiting aw → p ∉ aw.await.portals) :
    Sound ex (s.destroyProxy a) := by
  unfold State.destroyProxy
  split
  · refine hs.change hc hc hs.jobs rfl rfl (fun p => ?_)
      (fun x aw hx => ⟨hx, fun p hp => ⟨?_, rfl⟩⟩) fun _ => id
    · simp only
      split_ifs
      · exact .inr rfl
      · exact .inl rfl
    · exact if_neg fun hmem => hps p hmem x aw hx hp
  · exact hs

variable [DecidableEq T]

omit [DecidableEq P] in
@[simp] theorem status_setStatus_self (st : Status P V) : (s.setStatus x st).status x = st :=
  Function.update_self _ _ _

omit [DecidableEq P] in
theorem status_setStatus_of_ne {st : Status P V} (h : y ≠ x) :
    (s.setStatus x st).status y = s.status y :=
  Function.update_of_ne h _ _

omit [DecidableEq P] in
/-- The tasks that wait when one task has got another status. -/
theorem waiting_of_update {st : Status P V} {aw : Pending P V}
    (hst : u.status = Function.update s.status x st) (hs : st.isSuspended = false)
    (hy : u.status y = .waiting aw) : y ≠ x ∧ s.status y = .waiting aw := by
  rw [hst] at hy
  by_cases h : y = x
  · subst h
    rw [Function.update_self] at hy
    rw [hy] at hs
    cases hs
  · rw [Function.update_of_ne h] at hy
    exact ⟨h, hy⟩

omit [DecidableEq P] in
theorem Calm.update {st : Status P V} (hc : Calm s)
    (hst : u.status = Function.update s.status x st) (hs : st.isSuspended = false) : Calm u := by
  intro y aw hy
  rw [hst] at hy
  by_cases h : y = x
  · subst h
    rw [Function.update_self] at hy
    rw [hy] at hs
    cases hs
  · rw [Function.update_of_ne h] at hy
    exact hc y aw hy

/-- A task is not suspended on a portal, or not any more. -/
theorem Sound.setStatus {st : Status P V} (hs : Sound ex s) (hc : Calm s)
    (hst : st.isSuspended = false) : Sound ex (s.setStatus x st) :=
  hs.change hc (hc.update rfl hst) hs.jobs rfl rfl (fun _ => .inl rfl)
    (fun _ _ hy => ⟨(waiting_of_update rfl hst hy).2, fun _ _ => ⟨rfl, rfl⟩⟩) fun _ => id

omit [DecidableEq P] [DecidableEq T] in
@[simp] theorem owner_handle (a : Await P) (x : T) (w : ℕ) : (a.handle x w).owner = x := by
  unfold Await.handle
  split <;> rfl

omit [DecidableEq T] in
/-- The handle in a portal is that of the task that waits on it. -/
theorem Sound.owner_eq {h : Handle T} {aw : Pending P V} (hs : Sound ex s)
    (hp : s.parent p = some h) (hx : s.status x = .waiting aw) (hmem : p ∈ aw.await.portals) :
    h = aw.await.handle x aw.number := by
  have h' := ((hs.waits x aw hx).2.2 p hmem).1
  rw [hp] at h'
  exact Option.some.inj h'

omit [DecidableEq T] in
/-- Two tasks do not wait on the same portal. -/
theorem Sound.apart {aw aw' : Pending P V} (hs : Sound ex s) (hx : s.status x = .waiting aw)
    (hy : s.status y = .waiting aw') (hne : y ≠ x) (hp : p ∈ aw.await.portals) :
    p ∉ aw'.await.portals := by
  intro hp'
  have h := congrArg Handle.owner (hs.owner_eq ((hs.waits x aw hx).2.2 p hp).1 hy hp')
  rw [owner_handle, owner_handle] at h
  exact hne h.symm

/-! ### The executors -/

variable [DecidableEq E] [DecidableEq L]

theorem nextId_of_runSoon {e e' : Executor.State E} {d : E}
    (h : Executor.step loop e (.runSoon d) = .ok e') : e'.nextId = e.nextId + 1 := by
  obtain ⟨-, h⟩ := Executor.step_runSoon_cases h
  rcases Executor.runSoon_cases h with ⟨-, rfl⟩ | ⟨-, -, ⟨c, -, -, rfl⟩ | ⟨-, rfl⟩⟩ <;> rfl

theorem nextId_runOnce (e : Executor.State E) (d : E) : (e.runOnce d).nextId = e.nextId := by
  rcases Executor.runOnce_cases e d with ⟨-, h⟩ | ⟨-, h⟩ <;> rw [h] <;> rfl

theorem nextId_le_of_step {e e' : Executor.State E} {a : Executor.Action E}
    (h : Executor.step loop e a = .ok e') : e.nextId ≤ e'.nextId := by
  cases a with
  | runSoon d =>
    rw [nextId_of_runSoon h]
    exact Nat.le_succ _
  | drain d =>
    obtain ⟨-, rfl⟩ := Executor.step_drain_cases h
    exact le_rfl
  | capture d =>
    obtain ⟨-, rfl⟩ := Executor.step_capture_cases h
    exact le_rfl
  | ret =>
    rcases Executor.ret_cases h with ⟨_, _, _, _, rfl⟩ | ⟨_, _, _, _, _, rfl⟩ <;> exact le_rfl
  | tick =>
    obtain ⟨_, _, _, _, _, _, h⟩ := Executor.tick_cases h
    rcases h with ⟨-, rfl⟩ | ⟨_, _, _, rfl⟩ | ⟨_, _, _, rfl⟩
    · exact le_rfl
    · exact le_rfl
    · rw [nextId_runOnce]
      exact le_rfl

/-- What the function that is passed to `capture()` schedules is executed next. -/
theorem upNext_of_capture {e e' : Executor.State E} {d : E}
    (h : Executor.step loop (e.capture d) (.runSoon d) = .ok e') : upNext e' = some e.nextId := by
  obtain ⟨-, h⟩ := Executor.step_runSoon_cases h
  have hready : (e.capture d).ready d = .tmp d e.nextTmp := Function.update_self _ _ _
  have hempty : (e.capture d).lists (.tmp d e.nextTmp) = [] := Function.update_self _ _ _
  have hlist : ((e.capture d).schedule d).lists (.tmp d e.nextTmp) = [.callback e.nextId] := by
    show Function.update (e.capture d).lists ((e.capture d).ready d) _ (.tmp d e.nextTmp) = _
    rw [hready, Function.update_self, hempty]
    rfl
  rcases Executor.runSoon_cases h with ⟨-, rfl⟩ | ⟨-, -, ⟨c, -, -, rfl⟩ | ⟨-, rfl⟩⟩
  · show front (((e.capture d).schedule d).lists (.tmp d e.nextTmp)) = _
    rw [hlist]
    rfl
  · -- The current executor may have to run this one: that comes last.
    show front (Function.update ((e.capture d).schedule d).lists _ _ (.tmp d e.nextTmp)) = _
    by_cases hl : ListRef.tmp d e.nextTmp = ((e.capture d).schedule d).ready c
    · rw [← hl, Function.update_self]
      show front (((e.capture d).schedule d).lists (.tmp d e.nextTmp) ++ _) = _
      rw [hlist]
      rfl
    · rw [Function.update_of_ne hl, hlist]
      rfl
  · show front (((e.capture d).schedule d).lists (((e.capture d).schedule d).ready d)) = _
    have hr : ((e.capture d).schedule d).ready d = .tmp d e.nextTmp := hready
    rw [hr, hlist]
    rfl

/-! ### Resumption -/

omit [DecidableEq P] in
theorem doResume_eq_ok {aw : Option (Pending P V)} (h : s.doResume loop ex x aw = .ok t) :
    ∃ e, Executor.step loop s.exec (.runSoon (ex x)) = .ok e ∧ t = { s with
      status := Function.update s.status x (.ready aw)
      job := Function.update s.job s.exec.nextId (some x)
      exec := e } :=
  lift_eq_ok.1 h

omit [DecidableEq T] [DecidableEq E] in
/-- The jobs, when the next step of a task is scheduled. -/
theorem Sound.jobs_update {n : ℕ} (hs : Sound ex s) (hn : s.exec.nextId < n) (id : ℕ) (y : T)
    (h : Function.update s.job s.exec.nextId (some x) id = some y) : id < n := by
  by_cases hid : id = s.exec.nextId
  · rwa [hid]
  · rw [Function.update_of_ne hid] at h
    exact (hs.jobs id y h).trans hn

/-- A task is resumed that does not wait on a portal. -/
theorem Sound.doResume (hs : Sound ex s) (hc : Calm s) (h : s.doResume loop ex x none = .ok t) :
    Sound ex t := by
  obtain ⟨e, he, rfl⟩ := doResume_eq_ok h
  have hn : s.exec.nextId < e.nextId := by
    rw [nextId_of_runSoon he]
    exact Nat.lt_succ_self _
  exact hs.change hc (hc.update rfl rfl) (fun id y => hs.jobs_update hn id y) rfl rfl
    (fun _ => .inl rfl) (fun _ _ hy => ⟨(waiting_of_update rfl rfl hy).2, fun _ _ => ⟨rfl, rfl⟩⟩)
    fun _ => id

omit [DecidableEq E] in
/-- A task that was suspended on portals is about to take its result. -/
theorem Sound.woken {aw : Pending P V} (hs : Sound ex s) (aw' : Pending P V) (hc : Calm s)
    (hx : s.status x = .waiting aw) (haw : aw'.await = aw.await)
    (hgot : aw'.got.isSome = true → ∃ q qs, aw.await.awaiter = .anyOf q qs)
    (hup : upNext u.exec = some s.exec.nextId) (hn : s.exec.nextId < u.exec.nextId)
    (hjob : u.job = Function.update s.job s.exec.nextId (some x))
    (hst : u.status = Function.update s.status x (.ready (some aw')))
    (haws : u.awaits = s.awaits) (hex : u.executor = s.executor)
    (hpar : ∀ q, u.parent q = s.parent q ∨ u.parent q = none)
    (hkeep : ∀ y aw'', y ≠ x → s.status y = .waiting aw'' → ∀ q ∈ aw''.await.portals,
      u.parent q = s.parent q ∧ u.value q = s.value q)
    (hargs : ∀ q, s.args q = s.results q ++ (s.value q).toList →
      u.args q = u.results q ++ Status.result q (.ready (some aw')) ++ (u.value q).toList) :
    Sound ex u := by
  have hself : u.status x = .ready (some aw') := by rw [hst, Function.update_self]
  have hoth : ∀ y, y ≠ x → u.status y = s.status y := by
    intro y hy
    rw [hst, Function.update_of_ne hy]
  have hnext : (upNext u.exec).bind u.job = some x := by
    rw [hup, hjob]
    exact Function.update_self _ _ _
  have hwait : ∀ y aw'', u.status y = .waiting aw'' → y ≠ x ∧ s.status y = .waiting aw'' := by
    intro y aw'' h
    have hy : y ≠ x := by
      rintro rfl
      rw [hself] at h
      cases h
    exact ⟨hy, (hoth y hy).symm.trans h⟩
  have hsub : ∀ q h, u.parent q = some h → s.parent q = some h := by
    intro q h hq
    rcases hpar q with hp | hp
    · rwa [hp] at hq
    · rw [hp] at hq
      cases hq
  refine ⟨fun id y h => ?_, fun q h hq => ?_, fun q y w hq => ?_, fun y aw'' h => ?_,
    fun y aw'' h => ?_, fun q => ?_⟩
  · rw [hjob] at h
    exact hs.jobs_update hn id y h
  · rw [hex]
    exact hs.parents q h (hsub q h hq)
  · obtain ⟨h₁, h₂⟩ := hs.children q y w (hsub q _ hq)
    rw [haws]
    exact ⟨h₁, fun aw'' h => h₂ aw'' (hwait y aw'' h).2⟩
  · obtain ⟨hy, hw⟩ := hwait y aw'' h
    obtain ⟨h₁, h₂, h₃⟩ := hs.waits y aw'' hw
    rw [haws]
    refine ⟨h₁, h₂, fun q hq => ?_⟩
    obtain ⟨hk₁, hk₂⟩ := hkeep y aw'' hy hw q hq
    rw [hk₁, hk₂]
    exact h₃ q hq
  · have hy : y = x := by
      by_contra hy
      rw [hoth y hy] at h
      exact hc y aw'' h
    subst hy
    rw [hself] at h
    cases h
    refine ⟨hnext, ?_, fun z awz hz q hq => ?_⟩
    · rw [haw]
      exact hgot
    · obtain ⟨hne, hz⟩ := hwait z awz hz
      rw [haw] at hq
      exact hs.apart hx hz hne hq
  · have h := hs.args q
    rw [hc.held, List.append_nil] at h
    have hheld : u.held q = Status.result q (.ready (some aw')) := by
      unfold State.held
      rw [hnext]
      simp only [hself]
    rw [hheld]
    exact hargs q h

end Corral.CBPortal
