import Corral.CBPortal.Turns

/-!
# `CBPortal`: every co_await follows the protocol

* `extend`, `State.rest`: the events of one co_await, and what changes only when a co_await begins or its
  initiate function ends;
* `Tracked.turn_waiting`: something happens to the co_await of a task that waits;
* `cancelAwaiter_cases`, `invoke_waiting`: a cancellation is confirmed, or the task is resumed;
* `Tracked.coAwait`, `Tracked.cancel`, `Tracked.initiateReturns`, `Tracked.takeResult`, ...: one lemma for
  each function;
* `NotStale`: no callback is invoked on a portal that has the handle of a task which is suspended on
  something else;
* `tracked_of_reach`: the run lemma.
-/

namespace Corral.CBPortal

open ActionMachine

variable {E L P T V : Type*} [DecidableEq P] [DecidableEq T] {loop : E → L} {ex : T → E}
  {s t u : State E P T V} {x y : T} {n m : ℕ} {p q : P} {v : V} {aw aw' : Pending P V} {a : Await P}

/-- Events are added to the course of one co_await. -/
def extend (c : T → ℕ → List (Event P V)) (x : T) (n : ℕ) (es : List (Event P V)) :
    T → ℕ → List (Event P V) :=
  fun y m => if y = x ∧ m = n then c y m ++ es else c y m

/-- What a task and its awaiter do not change while the task waits. -/
def State.rest (s : State E P T V) : (T → ℕ) × (P → ProxyStatus) × List (Initiation T) :=
  (s.awaits, s.proxyStatus, s.initiating)

omit [DecidableEq P] in
@[simp] theorem course_record (s : State E P T V) (x : T) (n : ℕ) (e : Event P V) :
    (s.record x n e).course = extend s.course x n [e] := rfl

omit [DecidableEq P] in
@[simp] theorem extend_extend (c : T → ℕ → List (Event P V)) (es es' : List (Event P V)) :
    extend (extend c x n es) x n es' = extend c x n (es ++ es') := by
  funext y m
  unfold extend
  split_ifs
  · exact List.append_assoc _ _ _
  · rfl

omit [DecidableEq P] in
@[simp] theorem extend_self (c : T → ℕ → List (Event P V)) (es : List (Event P V)) :
    extend c x n es x n = c x n ++ es :=
  if_pos ⟨rfl, rfl⟩

omit [DecidableEq P] in
theorem extend_of_ne (c : T → ℕ → List (Event P V)) (es : List (Event P V)) (h : ¬ (y = x ∧ m = n)) :
    extend c x n es y m = c y m :=
  if_neg h

omit [DecidableEq P] [DecidableEq T] in
theorem first_mem (a : Await P) : a.awaiter.first ∈ a.portals := by
  unfold Await.portals Awaiter.portals Awaiter.first
  split
  · exact List.mem_singleton_self _
  · exact List.mem_cons_self

/-- Something happens to the co_await of a task that waits. -/
theorem Tracked.turn_waiting {st : Status P V} {l : List (Event P V)} (ht : Tracked s)
    (hs : Sound ex s) (hc : Calm s) (hx : s.status x = .waiting aw)
    (hst : t.status = Function.update s.status x st)
    (hcourse : t.course = extend s.course x aw.number l) (haw : t.awaits = s.awaits)
    (hps : ∀ q, q ∉ aw.await.portals → t.proxyStatus q = s.proxyStatus q)
    (hinit : ∀ y m, ¬ (y = x ∧ m = aw.number) → t.initiation y m = s.initiation y m)
    (hkeys : (t.initiating.map fun i => (i.task, i.number)).Nodup)
    (hnew : ∀ m, m ≠ aw.number → t.place x m = .over)
    (h : Follows (s.course x aw.number ++ l) (t.place x aw.number) (t.initiation x aw.number)) :
    Tracked t := by
  refine ht.turn_status hc hst (fun m => place_waiting_of_ne hx) hnew (fun y aw' hne hy => ?_)
    (fun y => by rw [haw]) ?_ (fun y m hne => ?_) hinit hkeys ?_
  · exact hps _ fun hmem => hs.apart hx hy hne hmem (first_mem _)
  · rw [haw]
    exact (hs.waits x aw hx).1
  · rw [hcourse, extend_of_ne _ _ hne]
  · rwa [hcourse, extend_self]

/-- The same while the initiate functions go on as they do. -/
theorem Tracked.turn_rest {st : Status P V} {l : List (Event P V)} (ht : Tracked s)
    (hs : Sound ex s) (hc : Calm s) (hx : s.status x = .waiting aw)
    (hst : t.status = Function.update s.status x st)
    (hcourse : t.course = extend s.course x aw.number l) (hrest : t.rest = s.rest)
    (hnew : ∀ m, m ≠ aw.number → t.place x m = .over)
    (h : Follows (s.course x aw.number ++ l) (t.place x aw.number) (s.initiation x aw.number)) :
    Tracked t := by
  simp only [State.rest, Prod.mk.injEq] at hrest
  obtain ⟨haw, hps, hinit⟩ := hrest
  have hini : t.initiation = s.initiation := by
    unfold State.initiation
    rw [hinit]
  refine ht.turn_waiting hs hc hx hst hcourse haw (fun q _ => by rw [hps]) (fun y m _ => by rw [hini])
    ?_ hnew (by rwa [hini])
  rw [hinit]
  exact ht.keys

omit [DecidableEq P] in
/-- The place of the co_awaits of a task that gets a status in which it is not suspended. -/
theorem place_update {st : Status P V} (hst : t.status = Function.update s.status x st)
    (hnot : st.isSuspended = false) (m : ℕ) : t.place x m = .over := by
  refine place_of_not_suspended ?_ m
  rwa [hst, Function.update_self]

omit [DecidableEq P] in
theorem place_update_waiting {w : Pending P V} {st : ProxyStatus}
    (hst : t.status = Function.update s.status x (.waiting w))
    (hps : t.proxyStatus w.await.awaiter.first = st) :
    t.place x w.number = .waiting w.await w.cancelling st := by
  have hx : t.status x = .waiting w := by rw [hst, Function.update_self]
  rw [place_waiting hx, hps]

/-! ### Handles -/

/-- The cancellation of the co_await has been confirmed. -/
structure Confirmed (s : State E P T V) (x : T) (number : ℕ) (t : State E P T V) : Prop where
  status : t.status = Function.update s.status x .ended
  course : t.course = extend s.course x number [.confirmed]
  rest : t.rest = s.rest

theorem confirmed_confirm (s : State E P T V) (x : T) (aw : Pending P V) :
    Confirmed s x aw.number (s.confirm x aw) := by
  obtain ⟨cb, par, hd, -⟩ := destroyProxy_eq (s.setStatus x .ended) aw.await
  unfold State.confirm State.propagateCancel
  rw [hd]
  exact ⟨rfl, rfl, rfl⟩

variable [DecidableEq E] [DecidableEq L]

/-- The task has been resumed, and its next step is scheduled. -/
structure Woken (loop : E → L) (ex : T → E) (s : State E P T V) (x : T) (aw : Pending P V)
    (t : State E P T V) : Prop where
  status : t.status = Function.update s.status x (.ready (some aw))
  exec : Executor.step loop s.exec (.runSoon (ex x)) = .ok t.exec
  job : t.job = Function.update s.job s.exec.nextId (some x)
  steps : t.steps = s.steps
  course : t.course = s.course
  value : t.value = s.value
  rest : t.rest = s.rest

omit [DecidableEq P] in
theorem woken_of_doResume {r : T → Bool}
    (h : ({ s with requested := r } : State E P T V).doResume loop ex x (some aw) = .ok t) :
    Woken loop ex s x aw t := by
  obtain ⟨e, he, rfl⟩ := doResume_eq_ok h
  exact ⟨rfl, he, rfl, rfl, rfl, rfl, rfl⟩

/-- The handle of a task that waits is resumed. -/
theorem resumeTask_waiting (hx : s.status x = .waiting aw) (h : s.resumeTask loop ex x = .ok t) :
    (aw.cancelling = true ∧ s.mustResume aw = some false ∧ Confirmed s x aw.number t) ∨
      ((aw.cancelling = true → s.mustResume aw = some true) ∧ Woken loop ex s x aw t) := by
  obtain ⟨aw', r, hx', hm, h⟩ | ⟨aw', hx', hcan, hm, rfl⟩ | ⟨must, hx', -⟩ | ⟨hx' | ⟨aw', hx'⟩, -⟩ :=
    resumeTask_cases h
  · cases hx.symm.trans hx'
    exact .inr ⟨hm, woken_of_doResume h⟩
  · cases hx.symm.trans hx'
    exact .inl ⟨hcan, hm, confirmed_confirm s x aw⟩
  · cases hx.symm.trans hx'
  · cases hx.symm.trans hx'
  · cases hx.symm.trans hx'

omit [DecidableEq T] [DecidableEq E] [DecidableEq L] in
/-- A portal that a task waits on has the handle of the task. -/
theorem Sound.parent_portal (hs : Sound ex s) (hx : s.status x = .waiting aw)
    (hp : aw.await.awaiter = .portal p) : s.parent p = some (.task x) ∧ s.value p = none := by
  have hmem : p ∈ aw.await.portals := by
    unfold Await.portals
    rw [hp]
    exact List.mem_singleton_self _
  obtain ⟨hpar, hval⟩ := (hs.waits x aw hx).2.2 p hmem
  unfold Await.handle at hpar
  rw [hp] at hpar
  exact ⟨hpar, hval⟩

/-- `await_cancel()` of the awaiter of a task that waits. -/
theorem cancelAwaiter_cases (hs : Sound ex s) (hx : s.status x = .waiting aw')
    (haw : aw'.await = aw.await) (hn : aw'.number = aw.number)
    (h : s.cancelAwaiter loop ex x aw = .ok t) :
    Confirmed s x aw.number t ∨ aw'.cancelling = false ∧ t.course = s.course ∧ t.rest = s.rest ∧
      t.status = Function.update s.status x (.ready (some aw')) := by
  unfold State.cancelAwaiter at h
  cases hp : aw.await.awaiter with
  | portal p =>
    simp only [hp] at h
    obtain ⟨hpar, hval⟩ := hs.parent_portal hx (by rw [haw, hp])
    obtain ⟨hnone, -⟩ | ⟨hd, e, hpar', -, h⟩ := wakeUp_cases h
    · rw [hpar] at hnone
      cases hnone
    cases hpar.symm.trans hpar'
    obtain ⟨-, -, hconf⟩ | ⟨hm, hwoken⟩ := resumeTask_waiting (s := s.handOut p e) hx h
    · left
      rw [← hn]
      exact ⟨hconf.status, hconf.course, hconf.rest⟩
    · right
      refine ⟨?_, hwoken.course, hwoken.rest, hwoken.status⟩
      -- there is no result yet
      cases hcan : aw'.cancelling with
      | false => rfl
      | true =>
        have hmust := hm hcan
        simp only [State.mustResume, haw, hp, State.handOut, hval] at hmust
        cases hmust
  | anyOf p ps =>
    simp only [hp] at h
    cases h
    have hconf := confirmed_confirm (s.wakeAll aw.await) x aw
    exact .inl ⟨hconf.status, hconf.course, hconf.rest⟩

/-- The task has been resumed in a `capture()`, with the result of this co_await. -/
structure Answered (loop : E → L) (ex : T → E) (s : State E P T V) (x : T) (aw : Pending P V) (p : P)
    (v : V) (t : State E P T V) : Prop where
  status : ∃ aw', aw'.number = aw.number ∧ aw'.await = aw.await ∧ t.result aw' = some (p, v) ∧
    t.status = Function.update s.status x (.ready (some aw'))
  exec : Executor.step loop (s.exec.capture (ex x)) (.runSoon (ex x)) = .ok t.exec
  job : t.job = Function.update s.job s.exec.nextId (some x)
  steps : t.steps = s.steps
  course : t.course = extend s.course x aw.number [.delivered p v]
  rest : t.rest = s.rest

omit [DecidableEq T] [DecidableEq E] [DecidableEq L] in
theorem waiter_eq_some {w : T × ℕ} (h : s.waiter p = some w) : ∃ hd aw, s.parent p = some hd ∧
    s.status hd.owner = .waiting aw ∧ p ∈ aw.await.portals ∧ w = (hd.owner, aw.number) := by
  unfold State.waiter at h
  split at h
  · cases h
  · rename_i hd hp
    split at h
    · rename_i aw hx
      split_ifs at h with hmem
      cases h
      exact ⟨hd, aw, hp, hx, hmem, rfl⟩
    · cases h

/-- A callback is invoked on a portal that a task waits on. -/
theorem invoke_waiting (hs : Sound ex s) {w : T × ℕ} (hw : s.waiter p = some w)
    (h : s.invoke loop ex p v = .ok t) :
    ∃ aw, s.status w.1 = .waiting aw ∧ w.2 = aw.number ∧ p ∈ aw.await.portals ∧
      Answered loop ex s w.1 aw p v t := by
  obtain ⟨hd, aw, hp, hx, hmem, rfl⟩ := waiter_eq_some hw
  refine ⟨aw, hx, rfl, hmem, ?_⟩
  obtain ⟨-, -, h⟩ := invoke_cases h
  have hcourse : (s.deliver p v).course = extend s.course hd.owner aw.number [.delivered p v] := by
    unfold State.deliver
    rw [hw]
    rfl
  rw [hcourse] at h
  obtain ⟨hnone, -⟩ | ⟨hd', e, hp', he, h⟩ := wakeUp_cases h
  · have hnone : s.parent p = none := hnone
    rw [hp] at hnone
    cases hnone
  have hp' : s.parent p = some hd' := hp'
  cases hp.symm.trans hp'
  have he : s.executor p = some e := he
  cases (hs.parents p hd hp).symm.trans he
  have hhandle := hs.owner_eq hp hx hmem
  cases hd with
  | task x =>
    have hx : s.status x = .waiting aw := hx
    have hportal : aw.await.awaiter = .portal p := by
      unfold Await.handle at hhandle
      cases haw : aw.await.awaiter with
      | portal q =>
        rw [Await.portals, haw] at hmem
        rw [List.mem_singleton.1 hmem]
      | anyOf q qs =>
        rw [haw] at hhandle
        cases hhandle
    obtain ⟨-, hm, -⟩ | ⟨-, hwoken⟩ := resumeTask_waiting
      (s := (s.withValues (Function.update s.value p (some v)) (Function.update s.args p (s.args p ++ [v]))
        (extend s.course x aw.number [.delivered p v])).handOut p (ex x)) hx h
    · -- the portal has a value
      simp [State.mustResume, hportal, State.handOut, State.withValues] at hm
    · refine ⟨⟨aw, rfl, rfl, ?_, hwoken.status⟩, hwoken.exec, hwoken.job, hwoken.steps, hwoken.course,
        hwoken.rest⟩
      unfold State.result
      rw [hportal, hwoken.value]
      show (Function.update s.value p (some v) p).map _ = _
      rw [Function.update_self]
      rfl
  | child x k =>
    have hx : s.status x = .waiting aw := hx
    obtain ⟨aw', v', hx', hk, hgot, hv, h⟩ := resume_child_cases h
    cases hx.symm.trans hx'
    have hv' : Function.update s.value p (some v) p = some v' := hv
    rw [Function.update_self] at hv'
    cases hv'
    obtain ⟨-, r, rs, hany⟩ := (hs.children p x k hp).2 aw hx hk
    have hself : (((s.withValues (Function.update s.value p (some v))
        (Function.update s.args p (s.args p ++ [v]))
        (extend s.course x aw.number [.delivered p v])).handOut p (ex x)).childGot x aw p v).status x
        = .waiting { aw with got := some (p, v) } := Function.update_self _ _ _
    obtain ⟨-, hm, -⟩ | ⟨-, hwoken⟩ := resumeTask_waiting hself h
    · simp [State.mustResume, hany] at hm
    · refine ⟨⟨{ aw with got := some (p, v) }, rfl, rfl, ?_, ?_⟩, hwoken.exec, hwoken.job, hwoken.steps,
        hwoken.course, hwoken.rest⟩
      · simp [State.result, hany]
      · rw [hwoken.status]
        exact Function.update_idem _ _ _

/-! ### Tasks that are not suspended on portals -/

/-- No task that is suspended on a portal is affected. -/
structure Idles (s t : State E P T V) : Prop where
  status : t.status = s.status ∨ ∃ y st, (s.status y).isSuspended = false ∧
    st.isSuspended = false ∧ t.status = Function.update s.status y st
  course : t.course = s.course
  rest : t.rest = s.rest

omit [DecidableEq P] [DecidableEq E] [DecidableEq L] in
theorem Tracked.idles (ht : Tracked s) (hc : Calm s) (h : Idles s t) : Tracked t := by
  have hrest := h.rest
  simp only [State.rest, Prod.mk.injEq] at hrest
  obtain ⟨haw, hps, hinit⟩ := hrest
  obtain hst | ⟨y, st, hy, hnot, hst⟩ := h.status
  · exact ht.same haw h.course
      (fun y m => place_congr (by rw [hst]) (hc y) (fun aw _ => by rw [hps]) m) hinit
  · exact ht.idle hc hy hnot hst hps haw h.course hinit

omit [DecidableEq P] [DecidableEq E] [DecidableEq L] in
theorem idles_setStatus {st : Status P V} (hx : (s.status x).isSuspended = false)
    (hst : st.isSuspended = false) : Idles s (s.setStatus x st) :=
  ⟨.inr ⟨x, st, hx, hst, rfl⟩, rfl, rfl⟩

omit [DecidableEq P] in
theorem idles_doResume (hx : (s.status x).isSuspended = false)
    (h : s.doResume loop ex x none = .ok t) : Idles s t := by
  obtain ⟨e, -, rfl⟩ := doResume_eq_ok h
  exact ⟨.inr ⟨x, .ready none, hx, rfl, rfl⟩, rfl, rfl⟩

/-- The handle of a task that does not wait on a portal. -/
theorem idles_resumeTask (hx : ∀ aw, s.status x ≠ .waiting aw) (h : s.resumeTask loop ex x = .ok t) :
    Idles s t := by
  obtain ⟨aw, -, hx', -⟩ | ⟨aw, hx', -⟩ | ⟨must, hx', ⟨r, h⟩ | rfl⟩ | ⟨-, rfl⟩ := resumeTask_cases h
  · exact absurd hx' (hx aw)
  · exact absurd hx' (hx aw)
  · have hidle : ({ s with requested := r } : State E P T V).status x = .elsewhere must := hx'
    obtain ⟨hst, hcourse, hrest⟩ := idles_doResume (by rw [hidle]; rfl) h
    exact ⟨hst, hcourse, hrest⟩
  · exact idles_setStatus (by rw [hx']; rfl) rfl
  · exact ⟨.inl rfl, rfl, rfl⟩

/-- A callback is invoked on a portal that nobody waits on, and that has no handle of a task which waits on
another one. -/
theorem idles_invoke (hw : s.waiter p = none)
    (hstale : ∀ hd, s.parent p = some hd → ∀ aw, s.status hd.owner = .waiting aw → p ∈ aw.await.portals)
    (h : s.invoke loop ex p v = .ok t) : Idles s t := by
  obtain ⟨-, -, h⟩ := invoke_cases h
  have hcourse : (s.deliver p v).course = s.course := by
    unfold State.deliver
    rw [hw]
  rw [hcourse] at h
  obtain ⟨-, rfl⟩ | ⟨hd, e, hp, -, h⟩ := wakeUp_cases h
  · exact ⟨.inl rfl, rfl, rfl⟩
  have hp : s.parent p = some hd := hp
  have hnot : ∀ aw, s.status hd.owner ≠ .waiting aw := by
    intro aw hx
    unfold State.waiter at hw
    simp only [hp, hx, if_pos (hstale hd hp aw hx)] at hw
    cases hw
  cases hd with
  | task x =>
    obtain ⟨hst, hcourse, hrest⟩ := idles_resumeTask (s := (s.withValues _ _ _).handOut p e) hnot h
    exact ⟨hst, hcourse, hrest⟩
  | child x k =>
    obtain ⟨aw, v', hx, -⟩ := resume_child_cases h
    exact absurd hx (hnot aw)

/-! ### co_await -/

omit [DecidableEq P] [DecidableEq E] [DecidableEq L] in
theorem notMem_of_inProgress {l : List (Initiation T)} (h : inProgress l x n = none) :
    (x, n) ∉ l.map fun i => (i.task, i.number) := by
  intro hmem
  obtain ⟨i, hi, hkey⟩ := List.mem_map.1 hmem
  rw [Prod.mk.injEq] at hkey
  rw [inProgress, Option.map_eq_none_iff, List.find?_eq_none] at h
  exact h i hi (decide_eq_true hkey)

omit [DecidableEq P] [DecidableEq E] [DecidableEq L] in
/-- A co_await begins. -/
theorem Tracked.begin {st : Status P V} {l : List (Event P V)} (ht : Tracked s) (hc : Calm s)
    (hx : (s.status x).isSuspended = false) (hfree : s.free a)
    (hst : t.status = Function.update s.status x st)
    (haw : t.awaits = Function.update s.awaits x (s.awaits x + 1))
    (hcourse : t.course = extend s.course x (s.awaits x) l)
    (hps : ∀ q, q ∉ a.portals → t.proxyStatus q = s.proxyStatus q)
    (hinit : ∀ y m, ¬ (y = x ∧ m = s.awaits x) → t.initiation y m = s.initiation y m)
    (hkeys : (t.initiating.map fun i => (i.task, i.number)).Nodup)
    (hnew : ∀ m, m ≠ s.awaits x → t.place x m = .over)
    (h : Follows l (t.place x (s.awaits x)) (t.initiation x (s.awaits x))) : Tracked t := by
  refine ht.turn_status (n := s.awaits x) hc hst (fun m _ => place_of_not_suspended hx m) hnew
    (fun y aw _ hy => ?_) (fun y => ?_) ?_ (fun y m hne => ?_) hinit hkeys ?_
  · exact hps _ fun hmem => hfree _ hmem y aw hy (first_mem _)
  · rw [haw]
    by_cases hy : y = x
    · rw [hy, Function.update_self]
      exact Nat.le_succ _
    · rw [Function.update_of_ne hy]
  · rw [haw, Function.update_self]
    exact Nat.lt_succ_self _
  · rw [hcourse, extend_of_ne _ _ hne]
  · rw [hcourse, extend_self, (ht.fresh x (s.awaits x) le_rfl).1]
    exact h

omit [DecidableEq E] [DecidableEq L] in
theorem Tracked.skip (ht : Tracked s) (hc : Calm s) (hx : (s.status x).isSuspended = false)
    (hfree : s.free a) : Tracked (s.skip x a) := by
  obtain ⟨cb, par, hd, -⟩ := destroyProxy_eq (State.setStatus { s with
    awaits := Function.update s.awaits x (s.awaits x + 1) } x .ended) a
  unfold State.skip State.propagateCancel
  rw [hd]
  refine ht.begin (l := [.skipped]) hc hx hfree rfl rfl rfl (fun _ _ => rfl) (fun _ _ _ => rfl) ht.keys
    (fun m _ => place_update rfl rfl m) ?_
  rw [place_update rfl rfl]
  have hini := (ht.fresh x (s.awaits x) le_rfl).2.2
  show Follows _ _ (s.initiation x (s.awaits x))
  rw [hini]
  exact follows_skip

omit [DecidableEq E] [DecidableEq L] in
/-- The task is suspended, and the initiate function of the proxy is called. -/
theorem Tracked.initiate (ht : Tracked s) (hc : Calm s) (hx : (s.status x).isSuspended = false)
    (hfree : s.free a) {proxy : Proxy} {st : ProxyStatus} {r r' : Bool}
    (h : Follows [(.initiated proxy : Event P V)] (.waiting a r st) (some false)) :
    Tracked (((s.setProxyStatus a.awaiter.first st).suspend ex x a r).initiate x a proxy (s.awaits x)
      r') := by
  have hfresh := (ht.fresh x (s.awaits x) le_rfl).2.2
  refine ht.begin hc hx hfree rfl rfl rfl (fun q hq => ?_) (fun y m hne => ?_) ?_ (fun m hm => ?_) ?_
  · refine Function.update_of_ne ?_ _ _
    rintro rfl
    exact hq (first_mem a)
  · exact inProgress_cons_of_ne _ _ hne
  · exact List.nodup_cons.2 ⟨notMem_of_inProgress hfresh, ht.keys⟩
  · exact place_waiting_of_ne (Function.update_self _ _ _) hm
  · rw [place_update_waiting (w := ⟨s.awaits x, a, none, r⟩) rfl (Function.update_self _ _ _)]
    exact Eq.subst (motive := Follows _ _) (inProgress_cons_self _ _).symm h

omit [DecidableEq E] [DecidableEq L] in
theorem Tracked.coAwait (ht : Tracked s) (hs : Sound ex s) (hc : Calm s)
    (hx : (s.status x).isSuspended = false) (h : s.coAwait ex x a = .ok t) : Tracked t := by
  obtain ⟨hfree, h⟩ := coAwait_cases hs h
  cases h with
  | skipped hp hr => exact ht.skip hc hx hfree
  | @ready p v hp hf =>
    refine ht.same rfl rfl (fun y m => ?_) rfl
    exact place_congr (s := s) (t := s.receive p v) rfl (hc y) (fun _ _ => rfl) m
  | suspended hp hv =>
    have hini := (ht.fresh x (s.awaits x) le_rfl).2.2
    refine ht.begin (l := []) hc hx hfree rfl rfl ?_ (fun _ _ => rfl) (fun _ _ _ => rfl) ht.keys
      (fun m hm => place_waiting_of_ne (Function.update_self _ _ _) hm) ?_
    · funext y m
      unfold extend
      rw [List.append_nil, ite_self]
      rfl
    · rw [place_update_waiting (w := ⟨s.awaits x, a, none, false⟩) rfl rfl]
      exact follows_suspend (by rw [hp]; exact fun _ => nofun) (.inl rfl)
  | external hp hv =>
    exact ht.initiate hc hx hfree (follows_suspend (by rw [hp]; exact fun _ => nofun) (.inr rfl))
  | inline hp hr hv hcb => exact ht.initiate hc hx hfree (follows_initiate hp)

/-! ### Callbacks and cancellation -/

theorem Tracked.invoke (ht : Tracked s) (hs : Sound ex s) (hc : Calm s)
    (hstale : ∀ hd, s.parent p = some hd → ∀ aw, s.status hd.owner = .waiting aw → p ∈ aw.await.portals)
    (h : s.invoke loop ex p v = .ok t) : Tracked t := by
  cases hw : s.waiter p with
  | none => exact ht.idles hc (idles_invoke hw hstale h)
  | some w =>
    obtain ⟨aw, hx, -, -, ⟨aw', hn, haw, hres, hst⟩, -, -, -, hcourse, hrest⟩ := invoke_waiting hs hw h
    have hself : t.status w.1 = .ready (some aw') := by rw [hst, Function.update_self]
    refine ht.turn_rest hs hc hx hst hcourse hrest (fun m hm => place_ready_of_ne hself (by rwa [hn])) ?_
    have hold := ht.follows w.1 aw.number
    rw [place_waiting hx] at hold
    rw [← hn, place_ready hself, hres, hn, haw]
    exact hold.deliver p v

omit [DecidableEq E] [DecidableEq L] in
/-- The cancellation of the co_await is requested, and the awaiter confirms it. -/
theorem Tracked.cancelled {l : List (Event P V)} (ht : Tracked s) (hs : Sound ex s) (hc : Calm s)
    (hx : s.status x = .waiting aw)
    (hu : Confirmed u x aw.number t) (hst : u.status = Function.update s.status x (.waiting aw'))
    (hcourse : u.course = extend s.course x aw.number l) (hrest : u.rest = s.rest)
    (h : Follows (s.course x aw.number ++ l ++ [.confirmed]) .over (s.initiation x aw.number)) :
    Tracked t := by
  have hstatus : t.status = Function.update s.status x .ended := by
    rw [hu.status, hst]
    exact Function.update_idem _ _ _
  refine ht.turn_rest (l := l ++ [.confirmed]) hs hc hx hstatus ?_ (hu.rest.trans hrest)
    (fun m _ => place_update hstatus rfl m) ?_
  · rw [hu.course, hcourse, extend_extend]
  · rw [place_update hstatus rfl, ← List.append_assoc]
    exact h

/-- The awaiter of a task confirms the cancellation that has been requested. -/
theorem confirmed_of_cancelAwaiter (hs : Sound ex s) (hx : s.status x = .waiting aw')
    (hcan : aw'.cancelling = true) (haw : aw'.await = aw.await) (hn : aw'.number = aw.number)
    (h : s.cancelAwaiter loop ex x aw = .ok t) : Confirmed s x aw.number t := by
  obtain hconf | ⟨hnot, -⟩ := cancelAwaiter_cases hs hx haw hn h
  · exact hconf
  · rw [hcan] at hnot
    cases hnot

/-- The state in which the cancellation of a co_await has been requested. -/
def State.request (s : State E P T V) (x : T) (aw : Pending P V) : State E P T V :=
  (s.setStatus x (.waiting { aw with cancelling := true })).record x aw.number .requested

theorem Tracked.cancel {answer : Option Bool} (ht : Tracked s) (hs : Sound ex s) (hc : Calm s)
    (h : s.cancel loop ex x answer = .ok t) : Tracked t := by
  cases hx : s.status x with
  | waiting aw =>
    have hu : Sound ex (s.request x aw) := (hs.setCancelling hc hx).record _ _ _
    have hxu : (s.request x aw).status x = .waiting { aw with cancelling := true } :=
      status_setStatus_self _
    have hold := ht.follows x aw.number
    rw [place_waiting hx] at hold
    obtain ⟨hp, h⟩ | ⟨hp, hst, h⟩ | ⟨hp, hst, rfl⟩ := cancel_waiting_cases hx h
    · have hconf := confirmed_of_cancelAwaiter hu hxu rfl rfl rfl h
      refine ht.cancelled (l := [.requested]) hs hc hx hconf rfl rfl rfl
        (hold.confirm (e := .requested) ?_ nofun nofun)
      rw [hp]
      exact fun _ => nofun
    · rw [hst] at hold
      obtain ⟨hin, rfl⟩ | ⟨hin, h⟩ | ⟨hin, h⟩ := cancelInitiated_cases h
      · -- there is no cancellation function
        refine ht.turn_rest (l := [.requested]) hs hc hx rfl rfl rfl
          (fun m hm => place_waiting_of_ne hxu hm) ?_
        have hplace : (s.request x aw).place x aw.number = .waiting aw.await true .initiated :=
          place_update_waiting (w := { aw with cancelling := true }) rfl hst
        exact hplace ▸ hold.refuse hin
      · have hconf := confirmed_of_cancelAwaiter (hu.record _ _ _) hxu rfl rfl rfl h
        refine ht.cancelled (l := [.requested, .cancelFn]) hs hc hx hconf rfl ?_ rfl ?_
        · exact extend_extend _ _ _
        · have hnew := hold.cancel hin
          rwa [List.append_assoc (s.course x aw.number)] at hnew
      · have hconf := confirmed_of_cancelAwaiter hu hxu rfl rfl rfl h
        refine ht.cancelled (l := [.requested]) hs hc hx hconf rfl rfl rfl
          (hold.confirm (e := .requested) ?_ nofun nofun)
        obtain hin | hin := hin
        · exact absurd hin hp
        · rw [hin]
          exact fun _ => nofun
    · -- the initiate function is in progress
      have hne : s.proxyStatus aw.await.awaiter.first ≠ .initiated := by
        obtain hst | hst := hst <;> rw [hst] <;> nofun
      have hxt : ((s.request x aw).setProxyStatus aw.await.awaiter.first .cancelPending).status x
          = .waiting { aw with cancelling := true } := hxu
      refine ht.turn_waiting (l := [.requested]) hs hc hx rfl rfl rfl (fun q hq => ?_)
        (fun _ _ _ => rfl) ht.keys (fun m hm => place_waiting_of_ne hxt hm) ?_
      · refine Function.update_of_ne ?_ _ _
        rintro rfl
        exact hq (first_mem _)
      · have hplace : ((s.request x aw).setProxyStatus aw.await.awaiter.first .cancelPending).place x
            aw.number = .waiting aw.await true .cancelPending :=
          place_update_waiting (w := { aw with cancelling := true }) rfl (Function.update_self _ _ _)
        exact hplace ▸ hold.request hne
  | unstarted => simp [State.cancel, hx] at h
  | ended => simp [State.cancel, hx] at h
  | ready aw =>
    simp only [State.cancel, hx] at h
    cases h
    exact ht.idles hc ⟨.inl rfl, rfl, rfl⟩
  | running =>
    simp only [State.cancel, hx] at h
    cases h
    exact ht.idles hc ⟨.inl rfl, rfl, rfl⟩
  | elsewhere must =>
    cases answer with
    | none =>
      simp only [State.cancel, hx] at h
      cases h
      exact ht.idles hc (idles_setStatus (by rw [hx]; rfl) rfl)
    | some must' =>
      simp only [State.cancel, hx] at h
      cases h
      exact ht.idles hc (idles_setStatus (by rw [hx]; rfl) rfl)

/-! ### The initiate function -/

omit [DecidableEq P] [DecidableEq E] [DecidableEq L] in
/-- The co_await of an initiate function that is in progress has begun. -/
theorem Tracked.lt_awaits {b : Bool} (ht : Tracked s) (h : s.initiation x n = some b) : n < s.awaits x := by
  by_contra hle
  rw [(ht.fresh x n (not_lt.1 hle)).2.2] at h
  cases h

omit [DecidableEq E] [DecidableEq L] in
/-- The initiate function of a task that still waits ends. -/
theorem Tracked.initiateEnds {i : Initiation T} {rest : List (Initiation T)} {st : Status P V}
    {l : List (Event P V)} (ht : Tracked s) (hs : Sound ex s) (hc : Calm s)
    (hi : s.initiator = some (i, rest)) (hx : s.status i.task = .waiting aw) (hn : aw.number = i.number)
    (hst : t.status = Function.update s.status i.task st)
    (hcourse : t.course = extend s.course i.task aw.number l) (haw : t.awaits = s.awaits)
    (hps : ∀ q, q ∉ aw.await.portals → t.proxyStatus q = s.proxyStatus q) (hinit : t.initiating = rest)
    (hnew : ∀ m, m ≠ aw.number → t.place i.task m = .over)
    (h : Follows (s.course i.task aw.number ++ l) (t.place i.task aw.number) none) : Tracked t := by
  obtain ⟨-, hnone, hkeys, hothers⟩ := ht.initiation_head (initiator_cases hi)
  refine ht.turn_waiting hs hc hx hst hcourse haw hps (fun y m hne => ?_) (hinit ▸ hkeys) hnew ?_
  · rw [hn] at hne
    unfold State.initiation
    rw [hinit]
    exact hothers y m hne
  · unfold State.initiation
    rw [hinit, hn, hnone, ← hn]
    exact h

/-- The initiate function has returned, while the task still waits. -/
def State.initiated (s : State E P T V) (i : Initiation T) (rest : List (Initiation T))
    (aw : Pending P V) : State E P T V :=
  ({ s.record i.task i.number .returned with initiating := rest } : State E P T V).setProxyStatus
    aw.await.awaiter.first .initiated

omit [DecidableEq E] [DecidableEq L] in
theorem proxyStatus_initiated {i : Initiation T} {rest : List (Initiation T)}
    (hq : q ∉ aw.await.portals) : (s.initiated i rest aw).proxyStatus q = s.proxyStatus q := by
  refine Function.update_of_ne ?_ _ _
  rintro rfl
  exact hq (first_mem _)

omit [DecidableEq E] [DecidableEq L] in
/-- The initiate function has returned, and the awaiter confirms the cancellation. -/
theorem Tracked.initiateConfirmed {i : Initiation T} {rest : List (Initiation T)}
    {l : List (Event P V)} (ht : Tracked s) (hs : Sound ex s) (hc : Calm s)
    (hi : s.initiator = some (i, rest)) (hx : s.status i.task = .waiting aw) (hn : aw.number = i.number)
    (hu : Confirmed u i.task aw.number t) (hst : u.status = s.status)
    (hcourse : u.course = extend s.course i.task aw.number l)
    (hrest : u.rest = (s.initiated i rest aw).rest)
    (h : Follows (s.course i.task aw.number ++ l ++ [.confirmed]) .over none) : Tracked t := by
  have hrest' := hu.rest.trans hrest
  simp only [State.rest, Prod.mk.injEq] at hrest'
  obtain ⟨haw, hps, hinit⟩ := hrest'
  have hstatus : t.status = Function.update s.status i.task .ended := by rw [hu.status, hst]
  refine ht.initiateEnds (l := l ++ [.confirmed]) hs hc hi hx hn hstatus ?_ haw (fun q hq => ?_) hinit
    (fun m _ => place_update hstatus rfl m) ?_
  · rw [hu.course, hcourse, extend_extend]
  · rw [hps, proxyStatus_initiated hq]
  · rw [place_update hstatus rfl, ← List.append_assoc]
    exact h

theorem Tracked.initiateReturns (ht : Tracked s) (hs : Sound ex s) (hc : Calm s)
    (h : s.initiateReturns loop ex = .ok t) : Tracked t := by
  obtain ⟨i, rest, hi, ⟨hcomp, rfl⟩ | ⟨aw, hcomp, hx, hn, h⟩⟩ := initiateReturns_cases hc h
  · obtain ⟨hini, hnone, hkeys, hothers⟩ := ht.initiation_head (initiator_cases hi)
    rw [hcomp] at hini
    refine ht.turn (fun _ => le_rfl) (ht.lt_awaits hini) (fun y m hne => if_neg hne) (fun _ _ _ => rfl)
      hothers hkeys ?_
    have hold := ht.follows i.task i.number
    rw [hini] at hold
    rw [course_record_self]
    show Follows _ (s.place i.task i.number) (inProgress rest i.task i.number)
    rw [hnone]
    exact hold.returnLate
  · have hini := (ht.initiation_head (initiator_cases hi)).1
    have hold := ht.follows i.task i.number
    rw [hini, hcomp, ← hn, place_waiting hx] at hold
    have hu : Sound ex (s.initiated i rest aw) := hs.congr rfl rfl rfl rfl rfl rfl rfl rfl rfl
    have hxu : (s.initiated i rest aw).status i.task = .waiting aw := hx
    have hcourse : (s.initiated i rest aw).course = extend s.course i.task aw.number [.returned] := by
      rw [hn]
      rfl
    have hfirst : (s.initiated i rest aw).proxyStatus aw.await.awaiter.first = .initiated :=
      Function.update_self _ _ _
    have hwaits : (s.proxyStatus aw.await.awaiter.first = .cancelPending →
        aw.await.proxy = some (.inline false) ∨ ∀ c, aw.await.proxy ≠ some (.inline c)) →
        Tracked (s.initiated i rest aw) := by
      intro hst
      refine ht.initiateEnds hs hc hi hx hn (Function.update_eq_self_iff.2 hx.symm).symm hcourse rfl
        (fun q => proxyStatus_initiated) rfl (fun m => place_waiting_of_ne hxu) ?_
      rw [place_waiting hxu, hfirst]
      exact hold.return hst
    obtain ⟨hst, -, h⟩ | ⟨hst, rfl⟩ := h
    · rw [hst] at hold
      obtain ⟨hin, rfl⟩ | ⟨hin, h⟩ | ⟨hin, h⟩ := cancelInitiated_cases h
      · exact hwaits fun _ => .inl hin
      · -- The cancellation has been requested while the initiate function was in progress.
        have hcan : aw.cancelling = true := by
          obtain ⟨-, hst, -⟩ | ⟨-, hst, -⟩ := hold.told hin
          · split_ifs at hst with hcan
            exact hcan
          · cases hst
        have hconf := confirmed_of_cancelAwaiter (hu.record _ _ _) hxu hcan rfl rfl h
        refine ht.initiateConfirmed (l := [.returned, .cancelFn]) hs hc hi hx hn hconf rfl ?_ rfl ?_
        · rw [course_record, hcourse, extend_extend]
          rfl
        · have hnew := hold.returnCancel hin
          rwa [List.append_assoc (s.course i.task aw.number)] at hnew
      · have hnot : ∀ c, aw.await.proxy ≠ some (.inline c) := by
          obtain hin | hin := hin <;> rw [hin] <;> exact fun _ => nofun
        obtain hconf | ⟨-, hcourse', hrest, hst'⟩ := cancelAwaiter_cases hu hxu rfl rfl h
        · exact ht.initiateConfirmed (l := [.returned]) hs hc hi hx hn hconf rfl hcourse rfl
            (hold.confirm (e := .returned) hnot nofun nofun)
        · simp only [State.rest, Prod.mk.injEq] at hrest
          obtain ⟨haw, hps, hinit⟩ := hrest
          have hxt : t.status i.task = .ready (some aw) := by rw [hst', Function.update_self]
          refine ht.initiateEnds hs hc hi hx hn hst' (hcourse'.trans hcourse) haw
            (fun q hq => ?_) hinit (fun m => place_ready_of_ne hxt) ?_
          · rw [hps, proxyStatus_initiated hq]
          · rw [place_ready hxt]
            exact .inr ((hold.plain hnot).leave _ nofun nofun nofun)
    · refine hwaits fun hpend => absurd ⟨hpend, ?_⟩ hst
      rw [((hs.waits _ aw hx).2.2 _ (first_mem _)).1]
      rfl

omit [DecidableEq E] [DecidableEq L] in
theorem Tracked.initiateThrows (ht : Tracked s) (hs : Sound ex s) (hc : Calm s)
    (h : s.initiateThrows = .ok t) : Tracked t := by
  obtain ⟨i, rest, aw, hi, hcomp, hx, hn, rfl⟩ := initiateThrows_cases h
  obtain ⟨cb, par, hd, -⟩ := destroyProxy_eq ({ s.record i.task i.number .threw with
    initiating := rest
    status := Function.update s.status i.task .running
    requested := Function.update s.requested i.task i.requested } : State E P T V) aw.await
  rw [hd]
  have hini := (ht.initiation_head (initiator_cases hi)).1
  have hold := ht.follows i.task i.number
  rw [hini, hcomp, ← hn, place_waiting hx] at hold
  refine ht.initiateEnds (l := [.threw]) hs hc hi hx hn rfl ?_ rfl (fun _ _ => rfl) rfl
    (fun m _ => place_update rfl rfl m) ?_
  · rw [hn]
    rfl
  · rw [place_update rfl rfl]
    exact hold.throw

/-! ### The steps of a task -/

omit [DecidableEq E] [DecidableEq L] in
/-- The task takes its result, and nothing else changes that has to do with a co_await. -/
theorem takeResult_eq {e : Executor.State E}
    (h : ({ s with exec := e } : State E P T V).takeResult x aw = .ok t) :
    ∃ q v, s.result aw = some (q, v) ∧ (t.exec, t.job, t.steps) = (e, s.job, s.steps) ∧
      t.course = extend s.course x aw.number [.resumed q v] ∧
      t.status = Function.update s.status x .running ∧ t.awaits = s.awaits ∧
      t.proxyStatus = s.proxyStatus ∧ t.initiating = (s.goesOn x aw.number).initiating ∧
      ∀ r, t.parent r = s.parent r ∨ t.parent r = none := by
  obtain ⟨q, v, ⟨hp, hv, rfl⟩ | ⟨⟨p, ps, hp⟩, hg, rfl⟩⟩ := takeResult_cases h
  · obtain ⟨cb, par, hd, hpar⟩ :=
      destroyProxy_eq ((({ s with exec := e } : State E P T V).goesOn x aw.number).receive q v) aw.await
    rw [hd]
    refine ⟨q, v, ?_, rfl, rfl, rfl, rfl, rfl, rfl, fun r => (hpar r).imp_right And.left⟩
    have hv : s.value q = some v := hv
    simp only [State.result, hp, hv, Option.map_some]
  · obtain ⟨cb, par, hd, hpar⟩ := destroyProxy_eq
      ({ ({ s with exec := e } : State E P T V).goesOn x aw.number with
        results := Function.update s.results q (s.results q ++ [v]) } : State E P T V) aw.await
    rw [hd]
    refine ⟨q, v, ?_, rfl, rfl, rfl, rfl, rfl, rfl, fun r => (hpar r).imp_right And.left⟩
    simp only [State.result, hp, hg]

omit [DecidableEq E] [DecidableEq L] in
theorem Tracked.takeResult {e : Executor.State E} (ht : Tracked s) (hs : Sound ex s)
    (hx : s.status x = .ready (some aw))
    (h : ({ s with exec := e } : State E P T V).takeResult x aw = .ok t) : Tracked t := by
  have hothers : ∀ y aw', y ≠ x → s.status y ≠ .ready (some aw') := fun y aw' hne hy =>
    hne (hs.eq_of_ready hx hy)
  obtain ⟨q, v, hres, -, hcourse, hst, haw, hps, hinit, -⟩ := takeResult_eq h
  have hold := ht.follows x aw.number
  rw [place_ready hx, hres] at hold
  have hini : ∀ y m, t.initiation y m = if y = x ∧ m = aw.number then
      (s.initiation y m).map fun _ => true else s.initiation y m := by
    intro y m
    unfold State.initiation
    rw [hinit]
    exact inProgress_goesOn s.initiating x y aw.number m
  have hlt : aw.number < s.awaits x := by
    by_contra hle
    have hover := (ht.fresh x aw.number (not_lt.1 hle)).2.1
    rw [place_ready hx] at hover
    cases hover
  refine ht.turn (n := aw.number) (x := x) (fun y => by rw [haw]) (by rwa [haw]) (fun y m hne => ?_)
    (fun y m hne => ?_) (fun y m hne => ?_) ?_ ?_
  · rw [hcourse, extend_of_ne _ _ hne]
  · by_cases hy : y = x
    · subst hy
      rw [place_update hst rfl, place_ready_of_ne hx fun hm => hne ⟨rfl, hm⟩]
    · refine place_congr ?_ (fun aw' => hothers y aw' hy) (fun aw' _ => by rw [hps]) m
      rw [hst, Function.update_of_ne hy]
  · rw [hini, if_neg hne]
  · have hkeys : (t.initiating.map fun i => (i.task, i.number)) =
        s.initiating.map fun i => (i.task, i.number) := by
      rw [hinit, State.goesOn, List.map_map]
      refine List.map_congr_left fun i _ => ?_
      rw [Function.comp_apply]
      split_ifs <;> rfl
    rw [hkeys]
    exact ht.keys
  · rw [hcourse, extend_self, place_update hst rfl, hini, if_pos ⟨rfl, rfl⟩]
    exact hold.resume

theorem Tracked.tick (ht : Tracked s) (hs : Sound ex s) (h : s.tick loop = .ok t) : Tracked t := by
  obtain ⟨e, he, h⟩ := tick_cases h
  obtain ⟨-, rfl⟩ | ⟨x, hj, h⟩ := h
  · exact ht.same rfl rfl (fun _ _ => rfl) rfl
  · obtain ⟨hx, rfl⟩ | ⟨aw, hx, h⟩ := begins_cases h
    · have hx : s.status x = .ready none := hx
      have hidles : Idles s (s.setStatus x .running) := idles_setStatus (by rw [hx]; rfl) rfl
      exact ht.idles (hs.calm_of_next he hj hx) ⟨hidles.status, hidles.course, hidles.rest⟩
    · exact ht.takeResult hs hx h

omit [DecidableEq P] in
theorem Tracked.ret (ht : Tracked s) (h : s.ret loop = .ok t) : Tracked t := by
  obtain ⟨e, -, ⟨-, rfl⟩ | ⟨x, -, -, -, rfl⟩⟩ := ret_cases h
  · exact ht.same rfl rfl (fun _ _ => rfl) rfl
  · exact ht.same rfl rfl (fun _ _ => rfl) rfl

/-! ### Runs -/

/-- No callback is invoked on a portal that has the handle of a task which is suspended on something
else. -/
def NotStale (s : State E P T V) : Action E P T V → Prop
  | .invoke p _ => ∀ hd, s.parent p = some hd → ∀ aw, s.status hd.owner = .waiting aw → p ∈ aw.await.portals
  | _ => True

theorem Tracked.userStep {act : Action E P T V} (ht : Tracked s) (hs : Sound ex s) (hc : Calm s)
    (hok : NotStale s act) (h : s.userStep loop ex act = .ok t) : Tracked t := by
  have hlift : ∀ a, s.lift (Executor.step loop s.exec a) = .ok t → Tracked t := by
    intro a h
    obtain ⟨e, -, rfl⟩ := lift_eq_ok.1 h
    exact ht.same rfl rfl (fun _ _ => rfl) rfl
  have hrunning : ∀ {x}, s.runs x = true → (s.status x).isSuspended = false := by
    intro x hr
    simp only [State.runs, Bool.and_eq_true] at hr
    cases hx : s.status x with
    | running => rfl
    | _ =>
      rw [hx] at hr
      cases hr.2
  cases act with
  | runSoon e => exact hlift _ h
  | drain e => exact hlift _ h
  | capture e => exact hlift _ h
  | tick => cases h
  | ret => cases h
  | start x =>
    simp only [State.userStep] at h
    split at h
    · rename_i hx
      exact ht.idles hc (idles_doResume (by rw [hx]; rfl) h)
    · cases h
  | finish x =>
    simp only [State.userStep] at h
    split_ifs at h with hr
    cases h
    exact ht.idles hc (idles_setStatus (hrunning hr) rfl)
  | coAwait x a =>
    simp only [State.userStep] at h
    split_ifs at h with hr
    exact ht.coAwait hs hc (hrunning hr) h
  | initiateReturns => exact ht.initiateReturns hs hc h
  | initiateThrows => exact ht.initiateThrows hs hc h
  | invoke p v => exact ht.invoke hs hc hok h
  | cancel x answer => exact ht.cancel hs hc h
  | leaves x answer =>
    obtain ⟨hr, st, hst, rfl⟩ := leaves_cases h
    have hnot : st.isSuspended = false := by
      obtain rfl | ⟨must, rfl⟩ := hst <;> rfl
    exact ht.idles hc ⟨.inr ⟨x, st, hrunning hr, hnot, rfl⟩, rfl, rfl⟩
  | answers x must =>
    simp only [State.userStep] at h
    split at h
    · rename_i hx
      cases h
      exact ht.idles hc (idles_setStatus (by rw [hx]; rfl) rfl)
    · cases h
  | comesBack x =>
    simp only [State.userStep] at h
    split at h
    · rename_i hx
      exact ht.idles hc (idles_resumeTask (by simp [hx]) h)
    · cases h

theorem tracked_of_reach (hr : Reach (step loop ex) NotStale .init s) : Tracked s := by
  refine hr.invariant_of (J := Sound ex) (fun _ => sound_of_reach) tracked_init fun s act t hs ht hok h => ?_
  obtain ⟨-, h⟩ | ⟨-, h⟩ | ⟨hu, h⟩ := step_cases h
  · exact ht.tick hs h
  · exact ht.ret h
  · exact ht.userStep hs (hs.calm hu) hok h

end Corral.CBPortal
