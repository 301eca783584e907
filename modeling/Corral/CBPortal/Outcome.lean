import Corral.CBPortal.Registration

/-!
# `CBPortal`: cancellation of `untilCBCalled()`

* `Promised`: what the forms with portals of their own promise of the events of a co_await;
* `until_cb_called`: this holds of every co_await, in every run without stale handles, such as those of
  `Corral.CBPortal.Registration`.

A cancellation function is one step: it invokes no callback, and cancels nothing.
-/

namespace Corral.CBPortal

open ActionMachine

variable {E L P T V : Type*} {loop : E → L} {ex : T → E} {s : State E P T V} {x : T} {n : ℕ} {c : Bool}
  {es : List (Event P V)} {st : Stage P V} {pl : Place P V} {i : Option Bool}

/-- What `untilCBCalled(initiateFn, cancelFn)` promises, and `untilCBCalled(initiateFn)` if `c` is false, of
the events after the initiate function has been called. -/
structure Promised (c : Bool) (es : List (Event P V)) : Prop where
  once : es.countP Event.isCancelFn ≤ 1
  before : ∀ before after, es = before ++ .cancelFn :: after →
    .requested ∈ before ∧ .returned ∈ before ∧ ∀ p v, .delivered p v ∉ before
  called : c = true →
    (.cancelFn ∈ es ↔ .requested ∈ es ∧ .returned ∈ es ∧ ∀ p v, .delivered p v ∉ es)
  confirmed : ∀ before after, es = before ++ .confirmed :: after → c = true ∧ .cancelFn ∈ before
  skipped : .skipped ∉ es
  deliveredOnce : es.countP Event.isDelivered ≤ 1
  resumedOnce : es.countP Event.isResumed ≤ 1
  resumed : ∀ p v, .resumed p v ∈ es → .delivered p v ∈ es

/-- A co_await that follows the protocol keeps the promise, unless its cancellation function is about to be
called. -/
theorem Told.promised (h : Told c es st) (hs : st.Settled c) (hi : st.started = true) :
    Promised c es where
  once := h.countP_cancelFn
  before before after heq := by
    rw [heq] at h
    exact h.before_cancelFn.2.2
  called hc := by
    subst hc
    exact h.cancelFn_iff hs
  confirmed before after heq := by
    rw [heq] at h
    exact h.before_confirmed
  skipped hm := by
    rw [h.skipped_iff.1 hm] at hi
    cases hi
  deliveredOnce := h.countP_delivered
  resumedOnce := h.countP_resumed
  resumed p v hm := by
    obtain ⟨r, b, hst⟩ := h.resumed_iff.1 hm
    exact h.delivered_iff.2 ⟨r, b, true, hst⟩

/-- The cancellation function is called, and the cancellation confirmed, without a state in between. -/
theorem Fits.settled (h : Fits c st pl i) : st.Settled c := by
  cases h with
  | initiated ha hr =>
    refine ⟨nofun, fun hc => ?_⟩
    rw [hr hc]
    nofun
  | _ => exact ⟨nofun, fun _ => nofun⟩

/-- The co_awaits with portals of their own follow the protocol. -/
theorem Follows.told_of_initiated (h : Follows es pl i) (hi : .initiated (.inline c) ∈ es) :
    ∃ st, Told c es st ∧ Fits c st pl i := by
  obtain ⟨c', st, ht, hf⟩ | hp := h
  · cases ht.proxy_eq hi
    exact ⟨st, ht, hf⟩
  · exact absurd hi (hp.notInitiated c)

deriving instance DecidableEq for Proxy, Event

variable [DecidableEq P] [DecidableEq T] [DecidableEq E] [DecidableEq L]

/-- **Cancellation of `untilCBCalled()`.**  In every run without stale handles, and in any order of the
initiate function, the callbacks and the cancellation: the cancellation function is called at most once, and
exactly if the cancellation has been requested, the initiate function has returned and no callback has been
invoked; only then is the cancellation confirmed.  One callback at most is delivered, and the co_await gets
its arguments as the result once, at the latest when other code has control. -/
theorem until_cb_called (hr : Reach (step loop ex) NotStale .init s) :
    (∀ x n c, .initiated (.inline c) ∈ s.course x n → Promised c (s.course x n)) ∧
      (∀ x n, .cancelFn ∈ s.course x n → .initiated (.inline true) ∈ s.course x n) ∧
      (s.userCode = true → ∀ x n c p v, .initiated (.inline c) ∈ s.course x n →
        .delivered p v ∈ s.course x n → .resumed p v ∈ s.course x n) := by
  have hs := sound_of_reach hr
  have ht := tracked_of_reach hr
  refine ⟨fun x n c hi => ?_, fun x n hm => ?_, fun hu x n c p v hi hm => ?_⟩
  · obtain ⟨st, htold, hf⟩ := (ht.follows x n).told_of_initiated hi
    exact htold.promised hf.settled (htold.initiated_iff.1 hi)
  · obtain ⟨c, st, htold, -⟩ | hp := ht.follows x n
    · obtain ⟨before, after, heq⟩ := List.append_of_mem hm
      rw [heq] at htold
      obtain ⟨-, hi, -⟩ := htold.before_cancelFn
      rw [heq]
      exact List.mem_append_left _ hi
    · exact absurd hm hp.notCancelled
  · obtain ⟨st, htold, hf⟩ := (ht.follows x n).told_of_initiated hi
    obtain ⟨r, b, taken, rfl⟩ := htold.delivered_iff.1 hm
    cases taken with
    | true => exact htold.resumed_iff.2 ⟨r, b, rfl⟩
    | false =>
      -- The task would be about to take the result.
      generalize hpl : s.place x n = pl at hf
      generalize s.initiation x n = i at hf
      cases hf
      unfold State.place State.placeOf at hpl
      split at hpl
      · split_ifs at hpl
      · rename_i aw hx
        exact absurd hx (hs.calm hu x aw)
      · cases hpl

/-- The cancellation is requested by the initiate function, which returns without a callback. -/
def cancelRun : List (Action Unit ℕ ℕ ℕ) :=
  [.start 0, .tick, .coAwait 0 ⟨.portal 0, some (.inline true)⟩, .cancel 0 none, .initiateReturns]

theorem until_cb_called_cancelRun : ∃ s, exec (step id fun _ => ()) .init cancelRun = .ok s ∧
    s.course 0 0 = [.initiated (.inline true), .requested, .returned, .cancelFn, .confirmed] ∧
    Promised true (s.course 0 0) := by
  have hmeets : Meets (step id fun _ => ()) InitiateKeeps (.init : State Unit ℕ ℕ ℕ) cancelRun := by
    refine meets_of_forall (fun a ha s => ?_) _
    obtain rfl | rfl | rfl | rfl | rfl : a = .start 0 ∨ a = .tick ∨
        a = .coAwait 0 ⟨.portal 0, some (.inline true)⟩ ∨ a = .cancel 0 none ∨ a = .initiateReturns := by
      simpa only [cancelRun, List.mem_cons, List.not_mem_nil, or_false] using ha
    all_goals trivial
  cases h : exec (step id fun _ => ()) .init cancelRun with
  | error e =>
    have hok : (exec (step id fun _ => ()) .init cancelRun).toOption.isSome := by decide +kernel
    rw [h] at hok
    cases hok
  | ok s =>
    have hcourse : (exec (step id fun _ => ()) .init cancelRun).map (fun s => s.course 0 0) =
        .ok [.initiated (.inline true), .requested, .returned, .cancelFn, .confirmed] := by
      decide +kernel
    rw [h] at hcourse
    have hcourse : s.course 0 0 =
        [.initiated (.inline true), .requested, .returned, .cancelFn, .confirmed] := Except.ok.inj hcourse
    refine ⟨s, rfl, hcourse, (until_cb_called (notStale_of_reach (reach_of_exec hmeets h))).1 0 0 true ?_⟩
    rw [hcourse]
    exact List.mem_cons_self

end Corral.CBPortal
