import Corral.CBPortal.Steps

/-!
# `CBPortal`: handles, callbacks and cancellation

* `resumeTask_cases`: what the handle of a task does when it is resumed;
* `Sound.wakeUp`: a portal resumes the handle that it has, be it that of a task that waits on it or not;
* `Sound.invoke`: a callback is invoked;
* `Sound.cancel`: the cancellation of a task is requested.
-/

namespace Corral.CBPortal

open ActionMachine
open Executor (ListRef)

variable {E L P T V : Type*} [DecidableEq P] [DecidableEq T] {loop : E → L} {ex : T → E}
  {s t u : State E P T V} {x y : T} {p q : P} {v : V} {aw : Pending P V} {a : Await P}

omit [DecidableEq T] in
@[simp] theorem status_destroyProxy : (s.destroyProxy a).status = s.status := by
  unfold State.destroyProxy
  split <;> rfl

theorem Sound.record (hs : Sound ex s) (x : T) (n : ℕ) (e : Event P V) : Sound ex (s.record x n e) :=
  hs.congr rfl rfl rfl rfl rfl rfl rfl rfl rfl

theorem status_propagateCancel (n : ℕ) (e : Event P V) :
    (s.propagateCancel x a n e).status = Function.update s.status x .ended := by
  show ((s.setStatus x .ended).destroyProxy a).status = _
  rw [status_destroyProxy]
  rfl

/-- The portals of a co_await that ends are not waited on by anybody else. -/
theorem Sound.notMem_of_update {st : Status P V} (hs : Sound ex s) (hx : s.status x = .waiting aw)
    (hst : u.status = Function.update s.status x st) (hnot : st.isSuspended = false)
    (hp : p ∈ aw.await.portals) (aw' : Pending P V) (hy : u.status y = .waiting aw') :
    p ∉ aw'.await.portals := by
  obtain ⟨hne, hy⟩ := waiting_of_update hst hnot hy
  exact hs.apart hx hy hne hp

theorem Sound.propagateCancel (hs : Sound ex s) (hc : Calm s) (hx : s.status x = .waiting aw)
    (n : ℕ) (e : Event P V) : Sound ex (s.propagateCancel x aw.await n e) :=
  ((hs.setStatus hc rfl).destroyProxy (hc.update rfl rfl) fun _ hp _ aw' hy =>
    hs.notMem_of_update hx rfl rfl hp aw' hy).record _ _ e

/-- Handles are taken out of portals, and a co_await is confirmed to be cancelled. -/
theorem Sound.confirm (hs : Sound ex s) (hc : Calm s) (hx : s.status x = .waiting aw)
    {par : P → Option (Handle T)} {e : Executor.State E} {vals : P → Option V} {args : P → List V}
    {course : T → ℕ → List (Event P V)} (hn : s.exec.nextId ≤ e.nextId)
    (hpar : ∀ q, par q = s.parent q ∨ par q = none)
    (hkeep : ∀ q, q ∉ aw.await.portals → par q = s.parent q ∧ vals q = s.value q)
    (hargs : ∀ q, s.args q = s.results q ++ (s.value q).toList →
      args q = s.results q ++ (vals q).toList) :
    Sound ex (({ s with
      parent := par
      exec := e
      value := vals
      args := args
      course := course } : State E P T V).confirm x aw) := by
  have hs' : Sound ex (({ s with
      parent := par
      exec := e
      value := vals
      args := args
      course := course } : State E P T V).setStatus x .ended) := by
    refine hs.change hc (hc.update rfl rfl) (fun id y h => (hs.jobs id y h).trans_le hn) rfl rfl hpar
      (fun y aw' hy => ?_) hargs
    obtain ⟨hne, hy⟩ := waiting_of_update rfl rfl hy
    exact ⟨hy, fun q hq => hkeep q fun hmem => hs.apart hy hx hne.symm hq hmem⟩
  exact (hs'.destroyProxy (hc.update rfl rfl) fun _ hp _ aw' hy =>
    hs.notMem_of_update hx rfl rfl hp aw' hy).record _ _ _

/-! ### Handles -/

variable [DecidableEq E] [DecidableEq L]

omit [DecidableEq L] [DecidableEq E] in
theorem resumeTask_cases [DecidableEq E] [DecidableEq L] (h : s.resumeTask loop ex x = .ok t) :
    (∃ aw r, s.status x = .waiting aw ∧ (aw.cancelling = true → s.mustResume aw = some true) ∧
      { s with requested := r }.doResume loop ex x (some aw) = .ok t) ∨
    (∃ aw, s.status x = .waiting aw ∧ aw.cancelling = true ∧ s.mustResume aw = some false ∧
      t = s.confirm x aw) ∨
    (∃ must, s.status x = .elsewhere must ∧
      ((∃ r, { s with requested := r }.doResume loop ex x none = .ok t) ∨
        t = s.setStatus x .ended)) ∨
    ((s.status x = .running ∨ ∃ aw, s.status x = .ready aw) ∧ t = s) := by
  unfold State.resumeTask at h
  cases hx : s.status x with
  | waiting aw =>
    simp only [hx] at h
    cases hcan : aw.cancelling with
    | true =>
      simp only [hcan, if_true] at h
      split at h
      · rename_i hm
        exact .inl ⟨aw, _, rfl, fun _ => hm, h⟩
      · rename_i hm
        cases h
        exact .inr (.inl ⟨aw, rfl, hcan, hm, rfl⟩)
      · cases h
    | false =>
      simp only [hcan, Bool.false_eq_true, if_false] at h
      exact .inl ⟨aw, s.requested, rfl, by simp [hcan], h⟩
  | elsewhere must =>
    refine .inr (.inr (.inl ⟨must, rfl, ?_⟩))
    rcases must with _ | _ | _
    · simp only [hx] at h
      exact .inl ⟨s.requested, h⟩
    · simp only [hx] at h
      cases h
      exact .inr rfl
    · simp only [hx] at h
      exact .inl ⟨_, h⟩
  | ready aw =>
    simp only [hx] at h
    cases h
    exact .inr (.inr (.inr ⟨.inr ⟨aw, rfl⟩, rfl⟩))
  | running =>
    simp only [hx] at h
    cases h
    exact .inr (.inr (.inr ⟨.inl rfl, rfl⟩))
  | unstarted => simp [hx] at h
  | ended => simp [hx] at h

/-- The handle that the portal had is resumed, in `capture()`. -/
def State.handOut (s : State E P T V) (p : P) (e : E) : State E P T V :=
  { s with
    parent := Function.update s.parent p none
    exec := s.exec.capture e }

theorem wakeUp_cases (h : s.wakeUp loop ex p = .ok t) :
    (s.parent p = none ∧ t = s) ∨
    (∃ hd e, s.parent p = some hd ∧ s.executor p = some e ∧
      (s.handOut p e).resume loop ex p hd = .ok t) := by
  unfold State.wakeUp at h
  cases hp : s.parent p with
  | none =>
    simp only [hp] at h
    cases h
    exact .inl ⟨rfl, rfl⟩
  | some hd =>
    simp only [hp] at h
    cases he : s.executor p with
    | none => simp [he] at h
    | some e =>
      simp only [he] at h
      exact .inr ⟨hd, e, rfl, rfl, h⟩

/-- The child of a mux has got a result. -/
def State.childGot (s : State E P T V) (x : T) (aw : Pending P V) (p : P) (v : V) :
    State E P T V :=
  ({ s with value := Function.update s.value p none }.wakeAll aw.await).setStatus x
    (.waiting { aw with got := some (p, v) })

omit [DecidableEq L] [DecidableEq E] in
theorem resume_child_cases [DecidableEq E] [DecidableEq L] {n : ℕ}
    (h : s.resume loop ex p (.child x n) = .ok t) :
    ∃ aw v, s.status x = .waiting aw ∧ aw.number = n ∧ aw.got = none ∧ s.value p = some v ∧
      (s.childGot x aw p v).resumeTask loop ex x = .ok t := by
  unfold State.resume at h
  simp only at h
  cases hx : s.status x with
  | waiting aw =>
    simp only [hx] at h
    split_ifs at h with hn
    cases hv : s.value p with
    | none => simp [hv] at h
    | some v =>
      simp only [hv] at h
      exact ⟨aw, v, rfl, hn.1, by simpa using hn.2, rfl, h⟩
  | unstarted => simp [hx] at h
  | ready aw => simp [hx] at h
  | running => simp [hx] at h
  | elsewhere must => simp [hx] at h
  | ended => simp [hx] at h

/-- What the portals hold changes, before one of them hands out its handle. -/
def State.withValues (s : State E P T V) (vals : P → Option V) (args : P → List V)
    (course : T → ℕ → List (Event P V)) : State E P T V :=
  { s with
    value := vals
    args := args
    course := course }

variable {vals : P → Option V} {args : P → List V} {course : T → ℕ → List (Event P V)} {hd : Handle T} {e : E}

/-- The handle of a task is resumed that does not wait on the portal, if it waits at all. -/
theorem Sound.resume_stale (hs : Sound ex s) (hc : Calm s) (he : e = ex hd.owner)
    (hval : ∀ q, q ≠ p → vals q = s.value q)
    (hargs : ∀ q, s.args q = s.results q ++ (s.value q).toList →
      args q = s.results q ++ (vals q).toList) (hp : s.parent p = some hd)
    (hw : ∀ aw, s.status hd.owner = .waiting aw → p ∉ aw.await.portals)
    (h : ((s.withValues vals args course).handOut p e).resume loop ex p hd = .ok t) : Sound ex t := by
  -- Nobody waits on the portal, so it can be changed.
  have hnot : ∀ y aw, s.status y = .waiting aw → p ∉ aw.await.portals := by
    intro y aw hy hmem
    have ho := congrArg Handle.owner (hs.owner_eq hp hy hmem)
    rw [owner_handle] at ho
    exact hw aw (ho ▸ hy) hmem
  have hu : Sound ex ((s.withValues vals args course).handOut p e) := by
    refine hs.change hc hc hs.jobs rfl rfl (fun q => ?_)
      (fun y aw hy => ⟨hy, fun q hq => ⟨?_, hval q ?_⟩⟩) hargs
    · by_cases hq : q = p
      · exact .inr (by rw [hq]; exact Function.update_self _ _ _)
      · exact .inl (Function.update_of_ne hq _ _)
    · refine Function.update_of_ne ?_ _ _
      rintro rfl
      exact hnot y aw hy hq
    · rintro rfl
      exact hnot y aw hy hq
  cases hd with
  | child y n =>
    obtain ⟨aw, v, hy, hn, -⟩ := resume_child_cases h
    exact absurd ((hs.children p y n hp).2 aw hy hn).1 (hw aw hy)
  | task y =>
    rcases resumeTask_cases h with ⟨aw, r, hy, -, h⟩ | ⟨aw, hy, -, -, rfl⟩ | ⟨must, -, ⟨r, h⟩ | rfl⟩ |
      ⟨-, rfl⟩
    · obtain ⟨e', he', rfl⟩ := doResume_eq_ok h
      have he : e = ex y := he
      subst he
      have hup : upNext e' = some s.exec.nextId := upNext_of_capture he'
      have hn : s.exec.nextId < e'.nextId := by
        rw [nextId_of_runSoon he']
        exact Nat.lt_succ_self _
      have hgot : aw.got = none := (hs.waits y aw hy).2.1
      refine hu.woken _ hc hy rfl (by simp [hgot]) hup hn rfl rfl rfl rfl (fun q => .inl rfl)
        (fun _ _ _ _ _ _ => ⟨rfl, rfl⟩) fun q hq => ?_
      simpa [Status.result, hgot] using hq
    · exact hu.propagateCancel hc hy _ _
    · have hu' : Sound ex ({ (s.withValues vals args course).handOut p e with requested := r } :
          State E P T V) := hu.congr rfl rfl rfl rfl rfl rfl rfl rfl rfl
      exact hu'.doResume hc h
    · exact hu.setStatus hc rfl
    · exact hu

/-- A portal resumes the handle of the task that waits on it. -/
theorem Sound.resume_waiting (hs : Sound ex s) (hc : Calm s) (he : e = ex hd.owner)
    (hval : ∀ q, q ≠ p → vals q = s.value q)
    (hargs : ∀ q, s.args q = s.results q ++ (s.value q).toList →
      args q = s.results q ++ (vals q).toList) (hp : s.parent p = some hd)
    (hx : s.status hd.owner = .waiting aw) (hmem : p ∈ aw.await.portals)
    (h : ((s.withValues vals args course).handOut p e).resume loop ex p hd = .ok t) : Sound ex t := by
  have hgot : aw.got = none := (hs.waits _ aw hx).2.1
  have hkeep : ∀ y aw', y ≠ hd.owner → s.status y = .waiting aw' → ∀ q ∈ aw'.await.portals,
      q ∉ aw.await.portals := fun y aw' hne hy q hq hq' => hs.apart hx hy hne hq' hq
  have hpar : ∀ q, Function.update s.parent p none q = s.parent q ∨
      Function.update s.parent p none q = none := by
    intro q
    by_cases hq : q = p
    · exact .inr (by rw [hq]; exact Function.update_self _ _ _)
    · exact .inl (Function.update_of_ne hq _ _)
  cases hd with
  | task x =>
    rcases resumeTask_cases h with ⟨aw', r, hx', -, h⟩ | ⟨aw', hx', -, -, rfl⟩ | ⟨must, hx', -⟩ |
      ⟨hx', -⟩
    · have haw : aw = aw' := Status.waiting.inj (hx.symm.trans hx')
      subst haw
      obtain ⟨e', he', rfl⟩ := doResume_eq_ok h
      have he : e = ex x := he
      subst he
      have hup : upNext e' = some s.exec.nextId := upNext_of_capture he'
      have hn : s.exec.nextId < e'.nextId := by
        rw [nextId_of_runSoon he']
        exact Nat.lt_succ_self _
      refine hs.woken _ hc hx rfl (by simp [hgot]) hup hn rfl rfl rfl rfl hpar
        (fun y aw' hne hy q hq => ?_) fun q hq => ?_
      · have hqp : q ≠ p := fun heq => hkeep y aw' hne hy q hq (heq ▸ hmem)
        exact ⟨Function.update_of_ne hqp _ _, hval q hqp⟩
      · show args q = s.results q ++ Status.result q (.ready (some aw)) ++ (vals q).toList
        simpa [Status.result, hgot] using hargs q hq
    · have haw : aw = aw' := Status.waiting.inj (hx.symm.trans hx')
      subst haw
      refine hs.confirm hc hx le_rfl hpar (fun q hq => ?_) hargs
      have hqp : q ≠ p := fun heq => hq (heq ▸ hmem)
      exact ⟨Function.update_of_ne hqp _ _, hval q hqp⟩
    · have hx' : s.status x = .elsewhere must := hx'
      have hx : s.status x = .waiting aw := hx
      rw [hx] at hx'
      cases hx'
    · have hx : s.status x = .waiting aw := hx
      rcases hx' with hx' | ⟨aw', hx'⟩
      · have hx' : s.status x = .running := hx'
        rw [hx] at hx'
        cases hx'
      · have hx' : s.status x = .ready aw' := hx'
        rw [hx] at hx'
        cases hx'
  | child x n =>
    obtain ⟨aw', v, hx', hn, -, hv, h⟩ := resume_child_cases h
    have haw : aw = aw' := Status.waiting.inj (hx.symm.trans hx')
    subst haw
    obtain ⟨-, r, rs, hany⟩ := (hs.children p x n hp).2 aw hx hn
    have hself : (((s.withValues vals args course).handOut p e).childGot x aw p v).status x
        = .waiting { aw with got := some (p, v) } := Function.update_self _ _ _
    rcases resumeTask_cases h with ⟨aw', r, hx', -, h⟩ | ⟨aw', hx', -, hm, -⟩ | ⟨must, hx', -⟩ |
      ⟨hx', -⟩
    · have haw : aw' = { aw with got := some (p, v) } := Status.waiting.inj (hx'.symm.trans hself)
      subst haw
      obtain ⟨e', he', rfl⟩ := doResume_eq_ok h
      have he : e = ex x := he
      subst he
      have hup : upNext e' = some s.exec.nextId := upNext_of_capture he'
      have hn : s.exec.nextId < e'.nextId := by
        rw [nextId_of_runSoon he']
        exact Nat.lt_succ_self _
      refine hs.woken { aw with got := some (p, v) } hc hx rfl (fun _ => ⟨_, _, hany⟩) hup hn
        rfl ?_ rfl rfl (fun q => ?_) (fun y aw' hne hy q hq => ?_) fun q hq => ?_
      · exact Function.update_idem _ _ _
      · by_cases hq : q ∈ aw.await.portals
        · exact .inr (if_pos hq)
        · exact (hpar q).imp (fun h => (if_neg hq).trans h) fun h => (if_neg hq).trans h
      · have hnot := hkeep y aw' hne hy q hq
        have hqp : q ≠ p := fun heq => hnot (heq ▸ hmem)
        refine ⟨(if_neg hnot).trans (Function.update_of_ne hqp _ _), ?_⟩
        exact (Function.update_of_ne hqp _ _).trans (hval q hqp)
      · have harg := hargs q hq
        show args q = s.results q ++ Status.result q (.ready (some { aw with got := some (p, v) })) ++
          (Function.update vals p none q).toList
        by_cases hqp : q = p
        · subst hqp
          have hv : vals q = some v := hv
          simpa [Status.result, hv] using harg
        · simpa [Status.result, hqp, Ne.symm hqp] using harg
    · -- a mux that has got a result goes on
      have haw : aw' = { aw with got := some (p, v) } := Status.waiting.inj (hx'.symm.trans hself)
      subst haw
      simp [State.mustResume, hany] at hm
    · rw [hself] at hx'
      cases hx'
    · rcases hx' with hx' | ⟨aw', hx'⟩
      · rw [hself] at hx'
        cases hx'
      · rw [hself] at hx'
        cases hx'

/-- A portal wakes up whoever it has the handle of. -/
theorem Sound.wakeUp (hs : Sound ex s) (hc : Calm s) (hval : ∀ q, q ≠ p → vals q = s.value q)
    (hargs : ∀ q, s.args q = s.results q ++ (s.value q).toList →
      args q = s.results q ++ (vals q).toList)
    (h : (s.withValues vals args course).wakeUp loop ex p = .ok t) : Sound ex t := by
  rcases wakeUp_cases h with ⟨hp, rfl⟩ | ⟨hd, e, hp, he, h⟩
  · refine hs.change hc hc hs.jobs rfl rfl (fun _ => .inl rfl)
      (fun y aw hy => ⟨hy, fun q hq => ⟨rfl, hval q ?_⟩⟩) hargs
    rintro rfl
    have hpar := ((hs.waits y aw hy).2.2 q hq).1
    have hp : s.parent q = none := hp
    rw [hp] at hpar
    cases hpar
  · have hp : s.parent p = some hd := hp
    have he : s.executor p = some e := he
    rw [hs.parents p hd hp] at he
    have he := (Option.some.inj he).symm
    by_cases hw : ∃ aw, s.status hd.owner = .waiting aw ∧ p ∈ aw.await.portals
    · obtain ⟨aw, hx, hmem⟩ := hw
      exact hs.resume_waiting hc he hval hargs hp hx hmem h
    · exact hs.resume_stale hc he hval hargs hp (fun aw hx hmem => hw ⟨aw, hx, hmem⟩) h

/-! ### Callbacks and cancellation -/

omit [DecidableEq P] [DecidableEq E] [DecidableEq L] in
theorem Calm.setStatus {st : Status P V} (hc : Calm s) (h : ∀ aw, st ≠ .ready (some aw)) :
    Calm (s.setStatus x st) := by
  intro y aw hy
  by_cases hyx : y = x
  · subst hyx
    rw [status_setStatus_self] at hy
    exact h aw hy
  · rw [status_setStatus_of_ne hyx] at hy
    exact hc y aw hy

omit [DecidableEq E] [DecidableEq L] in
/-- The task is to be resumed by `doResumeAfterCancel()`. -/
theorem Sound.setCancelling (hs : Sound ex s) (hc : Calm s) (hx : s.status x = .waiting aw) :
    Sound ex (s.setStatus x (.waiting { aw with cancelling := true })) := by
  have hstatus : ∀ y aw', (s.setStatus x (.waiting { aw with cancelling := true })).status y
      = .waiting aw' → ∃ aw₀, s.status y = .waiting aw₀ ∧ aw'.number = aw₀.number ∧
        aw'.await = aw₀.await ∧ aw'.got = aw₀.got := by
    intro y aw' hy
    by_cases hyx : y = x
    · subst hyx
      rw [status_setStatus_self] at hy
      cases hy
      exact ⟨aw, hx, rfl, rfl, rfl⟩
    · rw [status_setStatus_of_ne hyx] at hy
      exact ⟨aw', hy, rfl, rfl, rfl⟩
  refine hs.of_calm hc (hc.setStatus nofun) hs.jobs hs.parents (fun p y w hp => ?_)
    (fun y aw' hy => ?_) fun _ => id
  · obtain ⟨h₁, h₂⟩ := hs.children p y w hp
    refine ⟨h₁, fun aw' hy hn => ?_⟩
    obtain ⟨aw₀, hy₀, hnum, haw, -⟩ := hstatus y aw' hy
    rw [haw]
    exact h₂ aw₀ hy₀ (hnum ▸ hn)
  · obtain ⟨aw₀, hy₀, hnum, haw, hgot⟩ := hstatus y aw' hy
    obtain ⟨h₁, h₂, h₃⟩ := hs.waits y aw₀ hy₀
    rw [hnum, haw, hgot]
    refine ⟨h₁, h₂, fun q hq => ?_⟩
    have hh : aw'.await.handle y aw₀.number = aw₀.await.handle y aw₀.number := by rw [haw]
    exact h₃ q hq

theorem Sound.cancelAwaiter (hs : Sound ex s) (hc : Calm s) (hx : s.status x = .waiting aw)
    (h : s.cancelAwaiter loop ex x aw = .ok t) : Sound ex t := by
  unfold State.cancelAwaiter at h
  cases haw : aw.await.awaiter with
  | portal p =>
    simp only [haw] at h
    exact hs.wakeUp hc (fun _ _ => rfl) (fun _ => id)
      (show (s.withValues s.value s.args s.course).wakeUp loop ex p = .ok t from h)
  | anyOf p ps =>
    simp only [haw] at h
    cases h
    refine hs.confirm hc hx le_rfl (fun q => ?_) (fun q hq => ⟨if_neg hq, rfl⟩) fun _ => id
    by_cases hq : q ∈ aw.await.portals
    · exact .inr (if_pos hq)
    · exact .inl (if_neg hq)

theorem cancelInitiated_cases (h : s.cancelInitiated loop ex x aw = .ok t) :
    (aw.await.proxy = some (.inline false) ∧ t = s) ∨
    (aw.await.proxy = some (.inline true) ∧
      (s.record x aw.number .cancelFn).cancelAwaiter loop ex x aw = .ok t) ∨
    ((aw.await.proxy = none ∨ aw.await.proxy = some .external) ∧
      s.cancelAwaiter loop ex x aw = .ok t) := by
  unfold State.cancelInitiated at h
  rcases hp : aw.await.proxy with _ | _ | _ | _
  all_goals simp only [hp] at h
  · exact .inr (.inr ⟨.inl rfl, h⟩)
  · exact .inr (.inr ⟨.inr rfl, h⟩)
  · cases h
    exact .inl ⟨rfl, rfl⟩
  · exact .inr (.inl ⟨rfl, h⟩)

theorem Sound.cancelInitiated (hs : Sound ex s) (hc : Calm s) (hx : s.status x = .waiting aw)
    (h : s.cancelInitiated loop ex x aw = .ok t) : Sound ex t := by
  rcases cancelInitiated_cases h with ⟨-, rfl⟩ | ⟨-, h⟩ | ⟨-, h⟩
  · exact hs
  · exact (hs.record _ _ _).cancelAwaiter hc hx h
  · exact hs.cancelAwaiter hc hx h

omit [DecidableEq E] [DecidableEq L] in
theorem deliver_eq (s : State E P T V) (p : P) (v : V) : ∃ course, s.deliver p v = { s with course := course } := by
  unfold State.deliver
  split
  · exact ⟨s.course, rfl⟩
  · exact ⟨_, rfl⟩

theorem invoke_cases (h : s.invoke loop ex p v = .ok t) : s.callback p = true ∧ s.value p = none ∧
    (s.withValues (Function.update s.value p (some v)) (Function.update s.args p (s.args p ++ [v]))
      (s.deliver p v).course).wakeUp loop ex p = .ok t := by
  unfold State.invoke at h
  split_ifs at h with hcb hv
  refine ⟨hcb, by simpa using hv, ?_⟩
  obtain ⟨course, hlog⟩ := deliver_eq s p v
  rw [hlog] at h ⊢
  exact h

theorem Sound.invoke (hs : Sound ex s) (hc : Calm s) (h : s.invoke loop ex p v = .ok t) :
    Sound ex t := by
  obtain ⟨-, hv, h⟩ := invoke_cases h
  refine hs.wakeUp hc (fun q hq => Function.update_of_ne hq _ _) (fun q hq => ?_) h
  by_cases hqp : q = p
  · subst hqp
    simpa [hv] using hq
  · simpa [hqp] using hq

theorem cancel_waiting_cases {answer : Option Bool} (hx : s.status x = .waiting aw)
    (h : s.cancel loop ex x answer = .ok t) :
    (aw.await.proxy = none ∧
      ((s.setStatus x (.waiting { aw with cancelling := true })).record x aw.number
        .requested).cancelAwaiter loop ex x aw = .ok t) ∨
    (aw.await.proxy ≠ none ∧ s.proxyStatus aw.await.awaiter.first = .initiated ∧
      ((s.setStatus x (.waiting { aw with cancelling := true })).record x aw.number
        .requested).cancelInitiated loop ex x aw = .ok t) ∨
    (aw.await.proxy ≠ none ∧ (s.proxyStatus aw.await.awaiter.first = .scheduled ∨
        s.proxyStatus aw.await.awaiter.first = .cancelPending) ∧
      t = ((s.setStatus x (.waiting { aw with cancelling := true })).record x aw.number
        .requested).setProxyStatus aw.await.awaiter.first .cancelPending) := by
  unfold State.cancel at h
  simp only [hx] at h
  cases hp : aw.await.proxy with
  | none =>
    simp only [hp] at h
    exact .inl ⟨rfl, h⟩
  | some proxy =>
    simp only [hp] at h
    have hps : ((s.setStatus x (.waiting { aw with cancelling := true })).record x aw.number
        .requested).proxyStatus = s.proxyStatus := rfl
    rw [hps] at h
    cases hst : s.proxyStatus aw.await.awaiter.first with
    | notStarted => simp [hst] at h
    | initiated =>
      simp only [hst] at h
      exact .inr (.inl ⟨nofun, rfl, h⟩)
    | scheduled =>
      simp only [hst] at h
      cases h
      exact .inr (.inr ⟨nofun, .inl rfl, rfl⟩)
    | cancelPending =>
      simp only [hst] at h
      cases h
      exact .inr (.inr ⟨nofun, .inr rfl, rfl⟩)

theorem Sound.cancel {answer : Option Bool} (hs : Sound ex s) (hc : Calm s)
    (h : s.cancel loop ex x answer = .ok t) : Sound ex t := by
  cases hx : s.status x with
  | waiting aw =>
    have hu : Sound ex ((s.setStatus x (.waiting { aw with cancelling := true })).record x aw.number
        .requested) := (hs.setCancelling hc hx).record _ _ _
    have hcu : Calm (s.setStatus x (.waiting { aw with cancelling := true })) := hc.setStatus nofun
    have hxu : (s.setStatus x (.waiting { aw with cancelling := true })).status x
        = .waiting { aw with cancelling := true } := status_setStatus_self _
    rcases cancel_waiting_cases hx h with ⟨-, h⟩ | ⟨-, -, h⟩ | ⟨-, -, rfl⟩
    · exact hu.cancelAwaiter hcu hxu h
    · exact hu.cancelInitiated hcu hxu h
    · exact hu.congr rfl rfl rfl rfl rfl rfl rfl rfl rfl
  | unstarted => simp [State.cancel, hx] at h
  | ended => simp [State.cancel, hx] at h
  | ready aw =>
    simp only [State.cancel, hx] at h
    cases h
    exact hs.congr rfl rfl rfl rfl rfl rfl rfl rfl rfl
  | running =>
    simp only [State.cancel, hx] at h
    cases h
    exact hs.congr rfl rfl rfl rfl rfl rfl rfl rfl rfl
  | elsewhere must =>
    cases answer with
    | none =>
      simp only [State.cancel, hx] at h
      cases h
      exact hs.setStatus hc rfl
    | some must' =>
      simp only [State.cancel, hx] at h
      cases h
      exact hs.setStatus hc rfl

end Corral.CBPortal
