import Corral.CBPortal.Returning

/-!
# `CBPortal`: which portals have a handle

* `Releases`: no portal gets a handle;
* `Current`: the handles are those of tasks that wait on the portals;
* `InitiateKeeps`: no initiate function throws, unless its portals are destroyed with the proxy;
* `notStale_of_reach`: in such runs there are no stale handles;
* `handles_are_current`: in such runs an invocation only affects the task that waits on the portal, and
  there is a run without this guard in which a stale handle is resumed.
-/

namespace Corral.CBPortal

open ActionMachine

variable {E L P T V : Type*} [DecidableEq P] [DecidableEq T] {loop : E → L} {ex : T → E}
  {s t u : State E P T V} {x y : T} {n m : ℕ} {p q : P} {v : V} {aw aw' : Pending P V} {a : Await P}

/-- Handles are only taken out of the portals. -/
def Releases (s t : State E P T V) : Prop := ∀ q, t.parent q = s.parent q ∨ t.parent q = none

omit [DecidableEq P] [DecidableEq T] in
theorem Releases.trans (h : Releases s t) (h' : Releases t u) : Releases s u := by
  intro q
  obtain hq | hq := h' q
  · rw [hq]
    exact h q
  · exact .inr hq

omit [DecidableEq P] [DecidableEq T] in
theorem releases_of_eq (h : t.parent = s.parent) : Releases s t := fun q => .inl (by rw [h])

omit [DecidableEq P] [DecidableEq T] in
theorem Releases.none (h : Releases s t) (hq : s.parent q = none) : t.parent q = none := by
  obtain h | h := h q
  · rw [h, hq]
  · exact h

omit [DecidableEq T] in
theorem releases_destroyProxy (s : State E P T V) (a : Await P) : Releases s (s.destroyProxy a) := by
  obtain ⟨cb, par, hd, hpar⟩ := destroyProxy_eq s a
  rw [hd]
  exact fun q => (hpar q).imp_right And.left

theorem releases_confirm (s : State E P T V) (x : T) (aw : Pending P V) :
    Releases s (s.confirm x aw) :=
  fun q => releases_destroyProxy (s.setStatus x .ended) aw.await q

variable [DecidableEq E] [DecidableEq L]

omit [DecidableEq P] in
theorem releases_doResume {aw : Option (Pending P V)} (h : s.doResume loop ex x aw = .ok t) :
    Releases s t := by
  obtain ⟨e, -, rfl⟩ := doResume_eq_ok h
  exact releases_of_eq rfl

theorem releases_resumeTask (h : s.resumeTask loop ex x = .ok t) : Releases s t := by
  obtain ⟨aw, r, -, -, h⟩ | ⟨aw, -, -, -, rfl⟩ | ⟨must, -, ⟨r, h⟩ | rfl⟩ | ⟨-, rfl⟩ := resumeTask_cases h
  · exact releases_doResume (s := { s with requested := r }) h
  · exact releases_confirm s x aw
  · exact releases_doResume (s := { s with requested := r }) h
  · exact releases_of_eq rfl
  · exact releases_of_eq rfl

omit [DecidableEq T] [DecidableEq L] in
theorem releases_handOut (s : State E P T V) (p : P) (e : E) : Releases s (s.handOut p e) := by
  intro q
  by_cases hq : q = p
  · exact .inr (by rw [hq]; exact Function.update_self _ _ _)
  · exact .inl (Function.update_of_ne hq _ _)

omit [DecidableEq E] [DecidableEq L] in
theorem releases_childGot (s : State E P T V) (x : T) (aw : Pending P V) (p : P) (v : V) :
    Releases s (s.childGot x aw p v) := by
  intro q
  by_cases hq : q ∈ aw.await.portals
  · exact .inr (if_pos hq)
  · exact .inl (if_neg hq)

theorem releases_wakeUp (h : s.wakeUp loop ex p = .ok t) : Releases s t := by
  obtain ⟨-, rfl⟩ | ⟨hd, e, -, -, h⟩ := wakeUp_cases h
  · exact releases_of_eq rfl
  refine (releases_handOut s p e).trans ?_
  cases hd with
  | task x => exact releases_resumeTask h
  | child x k =>
    obtain ⟨aw, v, -, -, -, -, h⟩ := resume_child_cases h
    exact (releases_childGot _ x aw p v).trans (releases_resumeTask h)

/-- A task that waits on the portal is woken up: none of its portals has a handle any more. -/
theorem wakeUp_waiting {vals : P → Option V} {args : P → List V} {course : T → ℕ → List (Event P V)}
    (hs : Sound ex s) (hx : s.status x = .waiting aw) (hp : p ∈ aw.await.portals)
    (h : (s.withValues vals args course).wakeUp loop ex p = .ok t) (hq : q ∈ aw.await.portals) :
    t.parent q = none := by
  have hpar := ((hs.waits x aw hx).2.2 p hp).1
  obtain ⟨hnone, -⟩ | ⟨hd, e, hpar', -, h⟩ := wakeUp_cases h
  · have hnone : s.parent p = none := hnone
    rw [hpar] at hnone
    cases hnone
  have hpar' : s.parent p = some hd := hpar'
  cases hpar.symm.trans hpar'
  unfold Await.handle at h
  cases haw : aw.await.awaiter with
  | portal r =>
    rw [Await.portals, haw] at hp hq
    cases List.mem_singleton.1 hp
    cases List.mem_singleton.1 hq
    rw [haw] at h
    exact (releases_resumeTask h).none (Function.update_self _ _ _)
  | anyOf r rs =>
    rw [haw] at h
    obtain ⟨aw', v', hx', -, -, -, h⟩ := resume_child_cases h
    have hx' : s.status x = .waiting aw' := hx'
    cases hx.symm.trans hx'
    exact (releases_resumeTask h).none (if_pos hq)

theorem releases_cancelAwaiter (h : s.cancelAwaiter loop ex x aw = .ok t) : Releases s t := by
  unfold State.cancelAwaiter at h
  cases hp : aw.await.awaiter with
  | portal p =>
    simp only [hp] at h
    exact releases_wakeUp h
  | anyOf p ps =>
    simp only [hp] at h
    cases h
    refine Releases.trans (t := s.wakeAll aw.await) (fun q => ?_) (releases_confirm _ _ _)
    by_cases hq : q ∈ aw.await.portals
    · exact .inr (if_pos hq)
    · exact .inl (if_neg hq)

theorem cancelAwaiter_waiting (hs : Sound ex s) (hx : s.status x = .waiting aw')
    (haw : aw'.await = aw.await) (h : s.cancelAwaiter loop ex x aw = .ok t)
    (hq : q ∈ aw.await.portals) : t.parent q = none := by
  unfold State.cancelAwaiter at h
  cases hp : aw.await.awaiter with
  | portal p =>
    simp only [hp] at h
    have hmem : p ∈ aw'.await.portals := by
      rw [haw, Await.portals, hp]
      exact List.mem_singleton_self _
    exact wakeUp_waiting hs hx hmem
      (show (s.withValues s.value s.args s.course).wakeUp loop ex p = .ok t from h) (haw ▸ hq)
  | anyOf p ps =>
    simp only [hp] at h
    cases h
    exact (releases_confirm (s.wakeAll aw.await) x aw).none (if_pos hq)

/-! ### The handles of tasks that wait -/

/-- The handles are those of tasks that wait on the portals. -/
def Current (s : State E P T V) : Prop :=
  ∀ p hd, s.parent p = some hd → ∃ aw, s.status hd.owner = .waiting aw ∧ p ∈ aw.await.portals

omit [DecidableEq P] [DecidableEq T] [DecidableEq E] [DecidableEq L] in
theorem current_init : Current (State.init : State E P T V) := by
  rintro p hd ⟨⟩

omit [DecidableEq P] [DecidableEq T] [DecidableEq E] [DecidableEq L] in
theorem Releases.parent {hd : Handle T} (h : Releases s t) (hp : t.parent p = some hd) :
    s.parent p = some hd := by
  obtain h | h := h p
  · rwa [h] at hp
  · rw [h] at hp
    cases hp

omit [DecidableEq P] [DecidableEq T] [DecidableEq E] [DecidableEq L] in
theorem Current.same (hc : Current s) (hst : t.status = s.status) (hpar : Releases s t) : Current t := by
  intro p hd hp
  rw [hst]
  exact hc p hd (hpar.parent hp)

omit [DecidableEq P] [DecidableEq E] [DecidableEq L] in
/-- Another status for a task that does not wait. -/
theorem Current.idle {st : Status P V} (hc : Current s) (hx : ∀ aw, s.status x ≠ .waiting aw)
    (hst : t.status = Function.update s.status x st) (hpar : Releases s t) : Current t := by
  intro p hd hp
  obtain ⟨aw, haw, hmem⟩ := hc p hd (hpar.parent hp)
  refine ⟨aw, ?_, hmem⟩
  rw [hst, Function.update_of_ne]
  · exact haw
  · intro heq
    rw [heq] at haw
    exact hx aw haw

omit [DecidableEq P] [DecidableEq E] [DecidableEq L] in
/-- A task does not wait any more, and its portals have no handle any more. -/
theorem Current.leave {st : Status P V} (hc : Current s) (hx : s.status x = .waiting aw)
    (hst : t.status = Function.update s.status x st) (hpar : Releases s t)
    (hgone : ∀ q ∈ aw.await.portals, t.parent q = none) : Current t := by
  intro p hd hp
  obtain ⟨aw', haw, hmem⟩ := hc p hd (hpar.parent hp)
  refine ⟨aw', ?_, hmem⟩
  rw [hst, Function.update_of_ne]
  · exact haw
  · intro heq
    rw [heq, hx] at haw
    cases haw
    rw [hgone p hmem] at hp
    cases hp

omit [DecidableEq P] [DecidableEq T] [DecidableEq E] [DecidableEq L] in
/-- With such handles no callback is invoked on a stale one. -/
theorem Current.notStale (hc : Current s) (act : Action E P T V) : NotStale s act := by
  cases act with
  | invoke p v =>
    intro hd hp aw hx
    obtain ⟨aw', hx', hmem⟩ := hc p hd hp
    cases hx.symm.trans hx'
    exact hmem
  | _ => trivial

/-! ### The functions -/

omit [DecidableEq P] [DecidableEq E] [DecidableEq L] in
/-- The task goes on waiting on its portals. -/
theorem Current.still (hc : Current s) (hx : s.status x = .waiting aw) (haw : aw'.await = aw.await)
    (hst : t.status = Function.update s.status x (.waiting aw')) (hpar : Releases s t) : Current t := by
  intro p hd hp
  obtain ⟨aw₁, haw₁, hmem⟩ := hc p hd (hpar.parent hp)
  rw [hst]
  by_cases ho : hd.owner = x
  · rw [ho, hx] at haw₁
    cases haw₁
    rw [ho, Function.update_self]
    exact ⟨aw', rfl, haw ▸ hmem⟩
  · rw [Function.update_of_ne ho]
    exact ⟨aw₁, haw₁, hmem⟩

omit [DecidableEq E] [DecidableEq L] in
/-- The task gets suspended on its portals. -/
theorem Current.suspend (hc : Current s) (hx : s.status x = .running)
    (hst : t.status = Function.update s.status x (.waiting aw))
    (hpar : ∀ q, t.parent q = if q ∈ aw.await.portals then some (aw.await.handle x n) else s.parent q) :
    Current t := by
  intro p hd hp
  rw [hpar] at hp
  rw [hst]
  by_cases hmem : p ∈ aw.await.portals
  · rw [if_pos hmem] at hp
    cases hp
    rw [owner_handle, Function.update_self]
    exact ⟨aw, rfl, hmem⟩
  · rw [if_neg hmem] at hp
    obtain ⟨aw', haw, hmem'⟩ := hc p hd hp
    refine ⟨aw', ?_, hmem'⟩
    rw [Function.update_of_ne]
    · exact haw
    · intro heq
      rw [heq, hx] at haw
      cases haw

omit [DecidableEq E] [DecidableEq L] in
theorem Current.coAwait (hc : Current s) (hs : Sound ex s) (hx : s.status x = .running)
    (h : s.coAwait ex x a = .ok t) : Current t := by
  obtain ⟨-, h⟩ := coAwait_cases hs h
  cases h with
  | skipped hp hr =>
    refine hc.idle (x := x) (by simp [hx])
      (status_propagateCancel (s := { s with
        awaits := Function.update s.awaits x (s.awaits x + 1) }) _ _) ?_
    exact fun q => releases_destroyProxy (State.setStatus { s with
      awaits := Function.update s.awaits x (s.awaits x + 1) } x .ended) a q
  | ready hp hf => exact hc.same rfl (releases_of_eq rfl)
  | suspended hp hv => exact hc.suspend hx rfl fun _ => rfl
  | external hp hv => exact hc.suspend hx rfl fun _ => rfl
  | inline hp hr hv hcb => exact hc.suspend hx rfl fun _ => rfl

/-- An invocation affects the task that waits on the portal, or none. -/
theorem invoke_affects (hc : Current s) (hs : Sound ex s) (h : s.invoke loop ex p v = .ok t) :
    (s.parent p = none ∧ t.status = s.status ∧ Releases s t) ∨
      ∃ y aw aw', s.status y = .waiting aw ∧ p ∈ aw.await.portals ∧
        t.status = Function.update s.status y (.ready (some aw')) ∧ Releases s t ∧
        ∀ q ∈ aw.await.portals, t.parent q = none := by
  obtain ⟨-, -, hwake⟩ := invoke_cases h
  cases hp : s.parent p with
  | none =>
    obtain ⟨-, rfl⟩ | ⟨hd, e, hp', -⟩ := wakeUp_cases hwake
    · exact .inl ⟨rfl, rfl, releases_of_eq rfl⟩
    · cases hp.symm.trans hp'
  | some hd =>
    right
    obtain ⟨aw, hx, hmem⟩ := hc p hd hp
    have hw : s.waiter p = some (hd.owner, aw.number) := by
      unfold State.waiter
      simp only [hp, hx, if_pos hmem]
    obtain ⟨aw₁, hx₁, -, -, ⟨aw', -, -, -, hst⟩, -⟩ := invoke_waiting hs hw h
    cases hx.symm.trans hx₁
    exact ⟨hd.owner, aw, aw', hx, hmem, hst, fun q => releases_wakeUp hwake q,
      fun q hq => wakeUp_waiting hs hx hmem hwake hq⟩

theorem Current.invoke (hc : Current s) (hs : Sound ex s) (h : s.invoke loop ex p v = .ok t) :
    Current t := by
  obtain ⟨-, hst, hpar⟩ | ⟨y, aw, aw', hx, -, hst, hpar, hgone⟩ := invoke_affects hc hs h
  · exact hc.same hst hpar
  · exact hc.leave hx hst hpar hgone

/-- `await_cancel()` of the awaiter of a task that waits. -/
theorem Current.cancelAwaiter (hc : Current s) (hs : Sound ex u) (hx : s.status x = .waiting aw)
    (hst : u.status = Function.update s.status x (.waiting aw')) (haw : aw'.await = aw.await)
    (hn : aw'.number = aw.number) (hpar : Releases s u)
    (h : u.cancelAwaiter loop ex x aw = .ok t) : Current t := by
  have hxu : u.status x = .waiting aw' := by rw [hst, Function.update_self]
  have hgone : ∀ q ∈ aw.await.portals, t.parent q = none := fun q => cancelAwaiter_waiting hs hxu haw h
  have hreleases := hpar.trans (releases_cancelAwaiter h)
  obtain hconf | ⟨-, -, -, hst'⟩ := cancelAwaiter_cases hs hxu haw hn h
  · have hended : t.status = Function.update s.status x .ended := by
      rw [hconf.status, hst]
      exact Function.update_idem _ _ _
    exact hc.leave hx hended hreleases hgone
  · have hready : t.status = Function.update s.status x (.ready (some aw')) := by
      rw [hst', hst]
      exact Function.update_idem _ _ _
    exact hc.leave hx hready hreleases hgone

theorem Current.cancelInitiated (hc : Current s) (hs : Sound ex u) (hx : s.status x = .waiting aw)
    (hst : u.status = Function.update s.status x (.waiting aw')) (haw : aw'.await = aw.await)
    (hn : aw'.number = aw.number) (hpar : Releases s u)
    (h : u.cancelInitiated loop ex x aw = .ok t) : Current t := by
  obtain ⟨-, rfl⟩ | ⟨-, h⟩ | ⟨-, h⟩ := cancelInitiated_cases h
  · exact hc.still hx haw hst hpar
  · exact hc.cancelAwaiter (hs.record _ _ _) hx hst haw hn hpar h
  · exact hc.cancelAwaiter hs hx hst haw hn hpar h

theorem Current.cancel {answer : Option Bool} (hcur : Current s) (hs : Sound ex s) (hc : Calm s)
    (h : s.cancel loop ex x answer = .ok t) : Current t := by
  cases hx : s.status x with
  | waiting aw =>
    have hu : Sound ex (s.request x aw) := (hs.setCancelling hc hx).record _ _ _
    obtain ⟨-, h⟩ | ⟨-, -, h⟩ | ⟨-, -, rfl⟩ := cancel_waiting_cases hx h
    · exact hcur.cancelAwaiter hu hx rfl rfl rfl (releases_of_eq rfl) h
    · exact hcur.cancelInitiated hu hx rfl rfl rfl (releases_of_eq rfl) h
    · have hst : (s.request x aw).status
          = Function.update s.status x (.waiting { aw with cancelling := true }) := rfl
      have haw : ({ aw with cancelling := true } : Pending P V).await = aw.await := rfl
      exact hcur.still hx haw hst (releases_of_eq rfl)
  | unstarted => simp [State.cancel, hx] at h
  | ended => simp [State.cancel, hx] at h
  | ready aw =>
    simp only [State.cancel, hx] at h
    cases h
    exact hcur.same rfl (releases_of_eq rfl)
  | running =>
    simp only [State.cancel, hx] at h
    cases h
    exact hcur.same rfl (releases_of_eq rfl)
  | elsewhere must =>
    have hnot : ∀ aw, s.status x ≠ .waiting aw := by simp [hx]
    cases answer with
    | none =>
      simp only [State.cancel, hx] at h
      cases h
      exact hcur.idle hnot rfl (releases_of_eq rfl)
    | some must' =>
      simp only [State.cancel, hx] at h
      cases h
      exact hcur.idle hnot rfl (releases_of_eq rfl)

theorem Current.initiateReturns (hcur : Current s) (hs : Sound ex s) (hc : Calm s)
    (h : s.initiateReturns loop ex = .ok t) : Current t := by
  obtain ⟨i, rest, -, ⟨-, rfl⟩ | ⟨aw, -, hx, -, ⟨-, -, h⟩ | ⟨-, rfl⟩⟩⟩ := initiateReturns_cases hc h
  · exact hcur.same rfl (releases_of_eq rfl)
  · have hu : Sound ex (s.initiated i rest aw) := hs.congr rfl rfl rfl rfl rfl rfl rfl rfl rfl
    exact hcur.cancelInitiated hu hx (Function.update_eq_self_iff.2 hx.symm).symm rfl rfl
      (releases_of_eq rfl) h
  · exact hcur.same rfl (releases_of_eq rfl)

/-- An initiate function throws only if its portals are destroyed with the proxy. -/
def InitiateKeeps (s : State E P T V) : Action E P T V → Prop
  | .initiateThrows => ∀ i rest aw, s.initiator = some (i, rest) → s.status i.task = .waiting aw →
    ∃ c, aw.await.proxy = some (.inline c)
  | _ => True

omit [DecidableEq E] [DecidableEq L] in
theorem Current.initiateThrows (hcur : Current s)
    (hok : InitiateKeeps s (.initiateThrows : Action E P T V)) (h : s.initiateThrows = .ok t) :
    Current t := by
  obtain ⟨i, rest, aw, hi, -, hx, -, rfl⟩ := initiateThrows_cases h
  obtain ⟨c, hinline⟩ := hok i rest aw hi hx
  have hrunning : Current ({ s.record i.task i.number .threw with
      initiating := rest
      status := Function.update s.status i.task .running
      requested := Function.update s.requested i.task i.requested
      parent := fun q => if q ∈ aw.await.portals then none else s.parent q } : State E P T V) := by
    refine hcur.leave hx rfl (fun q => ?_) fun q hq => if_pos hq
    by_cases hq : q ∈ aw.await.portals
    · exact .inr (if_pos hq)
    · exact .inl (if_neg hq)
  refine hrunning.same ?_ fun q => .inl ?_
  · rw [status_destroyProxy]
  · unfold State.destroyProxy
    rw [hinline]
    rfl

theorem Current.tick (hcur : Current s) (h : s.tick loop = .ok t) : Current t := by
  obtain ⟨e, -, ⟨-, rfl⟩ | ⟨x, -, h⟩⟩ := tick_cases h
  · exact hcur.same rfl (releases_of_eq rfl)
  obtain ⟨hx, rfl⟩ | ⟨aw, hx, h⟩ := begins_cases h
  · have hx : s.status x = .ready none := hx
    exact hcur.idle (by simp [hx]) rfl (releases_of_eq rfl)
  · have hx : s.status x = .ready (some aw) := hx
    obtain ⟨-, -, -, -, -, hst, -, -, -, hpar⟩ := takeResult_eq h
    exact hcur.idle (by simp [hx]) hst hpar

theorem Current.userStep {act : Action E P T V} (hcur : Current s) (hs : Sound ex s) (hc : Calm s)
    (hok : InitiateKeeps s act) (h : s.userStep loop ex act = .ok t) : Current t := by
  have hlift : ∀ a, s.lift (Executor.step loop s.exec a) = .ok t → Current t := by
    intro a h
    obtain ⟨e, -, rfl⟩ := lift_eq_ok.1 h
    exact hcur.same rfl (releases_of_eq rfl)
  have hidles : Idles s t → Releases s t → Current t := by
    rintro ⟨hst | ⟨y, st, hy, -, hst⟩, -⟩ hpar
    · exact hcur.same hst hpar
    · refine hcur.idle (fun aw hx => ?_) hst hpar
      rw [hx] at hy
      cases hy
  have hrunning : ∀ {x}, s.runs x = true → s.status x = .running := by
    intro x hr
    simp only [State.runs, Bool.and_eq_true] at hr
    cases hx : s.status x with
    | running => rfl
    | _ =>
      rw [hx] at hr
      cases hr.2
  have hsuspended : ∀ {x}, s.runs x = true → (s.status x).isSuspended = false := by
    intro x hr
    rw [hrunning hr]
    rfl
  cases act with
  | runSoon e => exact hlift _ h
  | drain e => exact hlift _ h
  | capture e => exact hlift _ h
  | tick => cases h
  | ret => cases h
  | start x =>
    simp only [State.userStep] at h
    split at h
    · rename_i hx
      exact hidles (idles_doResume (by rw [hx]; rfl) h) (releases_doResume h)
    · cases h
  | finish x =>
    simp only [State.userStep] at h
    split_ifs at h with hr
    cases h
    exact hidles (idles_setStatus (hsuspended hr) rfl) (releases_of_eq rfl)
  | coAwait x a =>
    simp only [State.userStep] at h
    split_ifs at h with hr
    exact hcur.coAwait hs (hrunning hr) h
  | initiateReturns => exact hcur.initiateReturns hs hc h
  | initiateThrows => exact hcur.initiateThrows hok h
  | invoke p v => exact hcur.invoke hs h
  | cancel x answer => exact hcur.cancel hs hc h
  | leaves x answer =>
    obtain ⟨hr, st, hst, rfl⟩ := leaves_cases h
    have hnot : st.isSuspended = false := by
      obtain rfl | ⟨must, rfl⟩ := hst <;> rfl
    exact hidles ⟨.inr ⟨x, st, hsuspended hr, hnot, rfl⟩, rfl, rfl⟩ (releases_of_eq rfl)
  | answers x must =>
    simp only [State.userStep] at h
    split at h
    · rename_i hx
      cases h
      exact hidles (idles_setStatus (by rw [hx]; rfl) rfl) (releases_of_eq rfl)
    · cases h
  | comesBack x =>
    simp only [State.userStep] at h
    split at h
    · rename_i hx
      exact hidles (idles_resumeTask (by simp [hx]) h) (releases_resumeTask h)
    · cases h

theorem current_of_reach (hr : Reach (step loop ex) InitiateKeeps .init s) : Current s := by
  refine hr.invariant_of (J := Sound ex) (fun _ => sound_of_reach) current_init
    fun s act t hs hcur hok h => ?_
  obtain ⟨-, h⟩ | ⟨-, h⟩ | ⟨hu, h⟩ := step_cases h
  · exact hcur.tick h
  · obtain ⟨e, -, ⟨-, rfl⟩ | ⟨x, -, -, -, rfl⟩⟩ := ret_cases h
    · exact hcur.same rfl (releases_of_eq rfl)
    · exact hcur.same rfl (releases_of_eq rfl)
  · exact hcur.userStep hs (hs.calm hu) hok h

/-- As long as no initiate function throws whose portals outlive it, no callback is invoked on a stale
handle. -/
theorem notStale_of_reach (hr : Reach (step loop ex) InitiateKeeps .init s) :
    Reach (step loop ex) NotStale .init s := by
  induction hr with
  | refl => exact .refl
  | tail hr hok hs ih => exact ih.tail ((current_of_reach hr).notStale _) hs

/-- The initiate function throws after it has handed out the callback, and the task awaits something
else. -/
def staleRun : List (Action Unit ℕ ℕ ℕ) :=
  [.start 0, .tick, .coAwait 0 ⟨.portal 0, some .external⟩, .initiateThrows, .leaves 0 none, .ret, .tick]

/-- **The handles are current.**  As long as no initiate function throws whose portals outlive it, a portal
has a handle only while the task is suspended on the portal, and the handle is that of this co_await; so an
invocation of a callback affects no task but one that is suspended on the portal at that moment.  The
condition is needed: after `untilCBCalled()` with a portal of the user has thrown, the portal keeps the
handle, and a callback resumes the task while it is suspended on something else. -/
theorem handles_are_current :
    (∀ (E L P T V : Type) [DecidableEq E] [DecidableEq L] [DecidableEq P] [DecidableEq T] (loop : E → L)
      (ex : T → E) (s : State E P T V), Reach (step loop ex) InitiateKeeps .init s →
      (∀ p hd, s.parent p = some hd → ∃ aw, s.status hd.owner = .waiting aw ∧ p ∈ aw.await.portals ∧
        hd = aw.await.handle hd.owner aw.number) ∧
      ∀ p v t, step loop ex s (.invoke p v) = .ok t → ∀ y, t.status y ≠ s.status y →
        s.waitsOn y p = true) ∧
    ∃ s t : State Unit ℕ ℕ ℕ, Reach (step id fun _ => ()) anyAction .init s ∧ s.waitsOn 0 0 = false ∧
      step id (fun _ => ()) s (.invoke 0 7) = .ok t ∧ t.job s.exec.nextId = some 0 := by
  constructor
  · intro E L P T V _ _ _ _ loop ex s hr
    have hs := sound_of_reach hr
    have hcur := current_of_reach hr
    refine ⟨fun p hd hp => ?_, fun p v t h y hy => ?_⟩
    · obtain ⟨aw, hx, hmem⟩ := hcur p hd hp
      exact ⟨aw, hx, hmem, hs.owner_eq hp hx hmem⟩
    · obtain ⟨hact, -⟩ | ⟨hact, -⟩ | ⟨-, h⟩ := step_cases h
      · cases hact
      · cases hact
      obtain ⟨-, hst, -⟩ | ⟨z, aw, aw', hx, hmem, hst, -⟩ := invoke_affects hcur hs h
      · exact absurd (by rw [hst]) hy
      · have hyz : y = z := by
          by_contra hne
          rw [hst, Function.update_of_ne hne] at hy
          exact hy rfl
        rw [hyz, State.waitsOn, hx]
        exact decide_eq_true hmem
  · cases h : exec (step id fun _ => ()) .init staleRun with
    | error e =>
      have hok : (exec (step id fun _ => ()) .init staleRun).toOption.isSome := by decide +kernel
      rw [h] at hok
      cases hok
    | ok s =>
      have hstate : (exec (step id fun _ => ()) .init staleRun).map
          (fun s => (s.waitsOn 0 0, (step id (fun _ => ()) s (.invoke 0 7)).map
            fun t => t.job s.exec.nextId)) = .ok (false, .ok (some 0)) := by decide +kernel
      rw [h] at hstate
      obtain ⟨hw, hstep⟩ := Prod.mk.inj (Except.ok.inj hstate)
      obtain ⟨t, ht, hjob⟩ := map_eq_ok.1 hstep
      exact ⟨s, t, reach_of_run h, hw, ht, hjob⟩

theorem handles_are_current_awaitRun : ∃ s, exec (step id fun _ => ()) .init awaitRun = .ok s ∧
    ∃ hd aw, s.parent 0 = some hd ∧ s.status hd.owner = .waiting aw ∧ 0 ∈ aw.await.portals := by
  have hmeets : Meets (step id fun _ => ()) InitiateKeeps (.init : State Unit ℕ ℕ ℕ) awaitRun := by
    refine meets_of_forall (fun a ha s => ?_) _
    obtain rfl | rfl | rfl | rfl | rfl : a = .start 0 ∨ a = .tick ∨
        a = .coAwait 0 ⟨.portal 0, some .external⟩ ∨ a = .initiateReturns ∨ a = .ret := by
      simp only [awaitRun, List.mem_cons, List.not_mem_nil, or_false] at ha
      tauto
    all_goals trivial
  cases h : exec (step id fun _ => ()) .init awaitRun with
  | error e =>
    have hok : (exec (step id fun _ => ()) .init awaitRun).toOption.isSome := by decide +kernel
    rw [h] at hok
    cases hok
  | ok s =>
    have hsome : (exec (step id fun _ => ()) .init awaitRun).map
        (fun s => (s.parent 0).isSome) = .ok true := by decide +kernel
    rw [h] at hsome
    obtain ⟨hd, hp⟩ := Option.isSome_iff_exists.1 (Except.ok.inj hsome)
    obtain ⟨aw, hx, hmem, -⟩ := (handles_are_current.1 Unit Unit ℕ ℕ ℕ id (fun _ => ()) s
      (reach_of_exec hmeets h)).1 0 hd hp
    exact ⟨s, rfl, hd, aw, hp, hx, hmem⟩

end Corral.CBPortal
