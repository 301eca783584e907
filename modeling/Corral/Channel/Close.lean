import Corral.Channel.Claims

/-!
# `Channel`: sending on a closed channel

`close()` unparks the suspended awaiters and does not look at the claims.

* `FailsCleanly`: a send reports failure, adds nothing and violates no assertion;
* `claimed_send_after_close`: a sender that holds a claim when the channel is closed never
  fails cleanly, its `await_resume()` violates the assertion of `tryTransfer()`;
* `failsCleanly_after_close_iff`: a send without a claim fails cleanly unless the channel is
  unbounded and the send is a bulk one with something to send, since only `space()` looks at
  `closed_`.
-/

namespace Corral.Channel

open Registry ActionMachine

variable {T : Type*} {s : State T} {limit : Option ℕ}

/-- The send `w` by `who` completes, returns its failure indicator and leaves the buffer as it
was. -/
def FailsCleanly (s : State T) (who : Option ℕ) (w : Send T) (r : Except Fault (State T)) : Prop :=
  ∃ t, r = .ok t ∧ t.log = s.log ++ [.sent who w w.failure] ∧ t.buf = s.buf

theorem not_failsCleanly_error (who : Option ℕ) (w : Send T) (e : Fault) :
    ¬ FailsCleanly s who w (.error e) := by
  rintro ⟨t, ht, -⟩
  cases ht

/-- The awaiter `id` is a live sender of `w` whose `await_resume()` is due. -/
def SendDue (s : State T) (id : ℕ) (w : Send T) (claimed : Bool) : Prop :=
  ∃ ph, s.awaiters.lookup id = some ⟨.inr w, claimed, ph⟩ ∧ (ph = .constructed ∨ ph = .woken)

/-- On a closed channel `await_resume()` goes straight to the transfer. -/
theorem awaitResume_closed {id : ℕ} {w : Send T} {cl : Bool} (hcl : s.closed = true)
    (hdue : SendDue s id w cl) : ∃ u : State T,
      u.closed = true ∧ u.bounded = s.bounded ∧ u.claims = s.claims ∧ u.buf = s.buf ∧
      u.log = s.log ∧
      step s (.awaitResume id) = (u.writeTransfer (if cl then 1 else 0) w).map
        fun p => p.2.record (.sent (some id) w p.1) := by
  obtain ⟨ph, ha, hph⟩ := hdue
  have hready : s.ready ⟨.inr w, cl, ph⟩ = true := by simp [State.ready, hcl]
  have hok : ph = .woken ∨ ph = .constructed ∧ s.ready (⟨.inr w, cl, ph⟩ : Awaiter T) = true :=
    hph.symm.imp_right fun h => ⟨h, hready⟩
  refine ⟨s.setAwaiter id ⟨.inr w, false, .done⟩, hcl, rfl, rfl, rfl, rfl, ?_⟩
  simp only [step, State.withAwaiter, ha, State.awaitResume]
  rw [if_neg (not_not.2 hok), if_neg (by simp [hready])]
  rfl

/-! ### With a claim -/

/-- A claimed transfer on a closed channel runs into the assertion, whichever overload it is. -/
theorem writeTransfer_claimed_closed {w : Send T} (hcl : s.closed = true)
    (hclaims : s.claims .write ≠ 0) (hneeds : w.isNoop = false) :
    s.writeTransfer 1 w = .error (.assertion .notClosedNotFull) := by
  have havail : s.avail 1 ≠ 0 := by
    unfold State.avail
    split_ifs
    · omega
    · norm_num [sizeMax]
  rw [State.writeTransfer.eq_def, if_neg (by omega)]
  cases w with
  | one x => simp [State.writeOne, hcl, Except.map]
  | iter ra xs | range ra xs =>
    have hxs : xs ≠ [] := by simpa [Send.isNoop] using hneeds
    simp [State.writeBulk, hxs, havail, hcl, Except.map]

/-- In no reached state can a sender with a claim complete once the channel is closed. -/
theorem claimed_send_after_close (hr : Reach step anyAction (newChannel limit) s)
    (hcl : s.closed = true) {id : ℕ} {w : Send T} (hdue : SendDue s id w true) :
    step s (.awaitResume id) = .error (.assertion .notClosedNotFull) ∧
    ¬ FailsCleanly s (some id) w (step s (.awaitResume id)) := by
  have hi := inv_of_reach hr
  obtain ⟨ph, ha, hph⟩ := hdue
  have hneeds : w.isNoop = false := (hi.linked.claimOk id _ ha rfl).1
  -- It is counted, so the first assertion of `tryTransfer()` holds.
  have hclaims : s.claims .write ≠ 0 := by
    have hcount := count_erase (Awaiter.holds .write) ha
    have heq := hi.counted.claims_eq .write
    rw [State.holders, ← hcount] at heq
    simp only [Awaiter.holds, Awaiter.half, decide_true, Bool.and_self, if_true] at heq
    omega
  obtain ⟨u, hu, -, huc, -, -, hstep⟩ := awaitResume_closed hcl ⟨ph, ha, hph⟩
  have herr : step s (.awaitResume id) = .error (.assertion .notClosedNotFull) := by
    rw [hstep, if_pos rfl, writeTransfer_claimed_closed hu (huc ▸ hclaims) hneeds]
    rfl
  refine ⟨herr, ?_⟩
  rw [herr]
  exact not_failsCleanly_error _ _ _

/-- A writer claims the only slot, and the channel is closed before it sends. -/
def claimThenClose : List (Action ℕ) := [.newSend (.one 7), .close]

theorem claimed_send_after_close_claimThenClose :
    ∃ s, exec step (newChannel (some 1)) claimThenClose = .ok s ∧ s.closed = true ∧
      SendDue s 0 (.one 7) true ∧
      step s (.awaitResume 0) = .error (.assertion .notClosedNotFull) := by
  refine ⟨_, rfl, rfl, ⟨.constructed, rfl, Or.inl rfl⟩, ?_⟩
  exact (claimed_send_after_close
    (reach_of_run (s := newChannel (some 1)) (l := claimThenClose) rfl) rfl
    ⟨.constructed, rfl, Or.inl rfl⟩).1

/-- So it is not so that claimed senders fail cleanly on a closed channel. -/
theorem not_claimed_send_failsCleanly :
    ¬ ∀ (limit : Option ℕ) (s : State ℕ) (id : ℕ) (w : Send ℕ),
      Reach step anyAction (newChannel limit) s → s.closed = true → SendDue s id w true →
      FailsCleanly s (some id) w (step s (.awaitResume id)) := by
  intro h
  have hfail := h (some 1) _ 0 (.one 7) (reach_of_run (l := claimThenClose) rfl) rfl
    ⟨.constructed, rfl, Or.inl rfl⟩
  exact not_failsCleanly_error _ _ (.assertion .notClosedNotFull) hfail

/-! ### Without a claim -/

/-- The sends that see that the channel is closed. -/
def SeesClose (s : State T) (w : Send T) : Prop :=
  s.bounded = true ∨ (∃ x, w = .one x) ∨ w.isNoop = true

theorem writeTransfer_seesClose {w : Send T} (hcl : s.closed = true) (hw : SeesClose s w) :
    s.writeTransfer 0 w = .ok (w.failure, s) := by
  have hspace := space_of_closed hcl
  rw [State.writeTransfer.eq_def, if_neg (Nat.not_lt_zero _)]
  cases w with
  | one x => simp [State.writeOne, hspace, Send.failure, Except.map]
  | iter ra xs | range ra xs =>
    rcases hw with hb | ⟨x, hx⟩ | hno
    · simp [State.writeBulk, State.avail, hb, hspace, Send.failure, Except.map]
    · cases hx
    · have hxs : xs = [] := by simpa [Send.isNoop] using hno
      simp [State.writeBulk, hxs, Send.failure, Except.map]

theorem writeTransfer_not_seesClose {w : Send T} (hcl : s.closed = true) (hw : ¬ SeesClose s w) :
    s.writeTransfer 0 w = .error (.assertion .notClosedNotFull) := by
  obtain ⟨hb, hone, hno⟩ : s.bounded = false ∧ (¬ ∃ x, w = .one x) ∧ w.isNoop = false := by
    simpa [SeesClose, not_or] using hw
  have havail : s.avail 0 ≠ 0 := by norm_num [State.avail, hb, sizeMax]
  rw [State.writeTransfer.eq_def, if_neg (Nat.not_lt_zero _)]
  cases w with
  | one x => exact absurd ⟨x, rfl⟩ hone
  | iter ra xs | range ra xs =>
    have hxs : xs ≠ [] := by simpa [Send.isNoop] using hno
    simp [State.writeBulk, hxs, havail, hcl, Except.map]

/-- The transfer of a send without a claim, recorded in the log of `s`. -/
theorem failsCleanly_map_iff {u : State T} {who : Option ℕ} {w : Send T}
    (hcl : u.closed = true) (hb : u.bounded = s.bounded) (hbuf : u.buf = s.buf)
    (hlog : u.log = s.log) :
    FailsCleanly s who w
      ((u.writeTransfer 0 w).map fun p => p.2.record (.sent who w p.1)) ↔ SeesClose s w := by
  have hsees : SeesClose u w ↔ SeesClose s w := by rw [SeesClose, SeesClose, hb]
  constructor
  · intro hf
    by_contra hw
    rw [writeTransfer_not_seesClose hcl (fun h => hw (hsees.1 h))] at hf
    exact not_failsCleanly_error _ _ _ hf
  · intro hw
    rw [writeTransfer_seesClose hcl (hsees.2 hw)]
    exact ⟨_, rfl, by simp [State.record, hlog], hbuf⟩

/-- On a closed channel a new sender gets no claim and need not be suspended; and a send without
a claim, awaited or not, fails cleanly exactly if it sees that the channel is closed. -/
theorem failsCleanly_after_close_iff (hcl : s.closed = true) (w : Send T) :
    (∃ t, step s (.newSend w) = .ok t ∧ SendDue t s.nextId w false ∧ t.closed = true ∧
      t.bounded = s.bounded ∧ t.claims = s.claims ∧ t.buf = s.buf) ∧
    (FailsCleanly s none w (step s (.trySend w)) ↔
      s.bounded = true ∨ (∃ x, w = .one x) ∨ w.isNoop = true) ∧
    (∀ id, SendDue s id w false →
      (FailsCleanly s (some id) w (step s (.awaitResume id)) ↔
        s.bounded = true ∨ (∃ x, w = .one x) ∨ w.isNoop = true)) := by
  refine ⟨?_, failsCleanly_map_iff hcl rfl rfl rfl, fun id hdue => ?_⟩
  · obtain ⟨a, rfl, ⟨hu, -, -⟩ | ⟨-, he⟩⟩ := newAwaiter_cases s (.inr w)
    · exact absurd (space_of_closed hcl) hu
    · refine ⟨s.newAwaiter (.inr w), rfl, ?_⟩
      rw [he]
      exact ⟨⟨.constructed, AList.lookup_insert _, Or.inl rfl⟩, hcl, rfl, rfl, rfl⟩
  · obtain ⟨u, hu, hb, -, hbuf, hlog, hstep⟩ := awaitResume_closed hcl hdue
    rw [hstep]
    exact failsCleanly_map_iff hu hb hbuf hlog

theorem failsCleanly_after_close_bounded :
    ∃ s, exec step (newChannel (some 1)) [Action.close (T := ℕ)] = .ok s ∧ s.closed = true ∧
      FailsCleanly s none (.range false [7]) (step s (.trySend (.range false [7]))) := by
  refine ⟨_, rfl, rfl, ?_⟩
  exact (failsCleanly_after_close_iff rfl (.range false [7])).2.1.2 (Or.inl rfl)

/-- So it is not so that every send on a closed channel fails cleanly: a range sent on a closed
unbounded channel violates an assertion. -/
theorem not_send_failsCleanly :
    ¬ ∀ (limit : Option ℕ) (s : State ℕ) (w : Send ℕ),
      Reach step anyAction (newChannel limit) s → s.closed = true →
      FailsCleanly s none w (step s (.trySend w)) := by
  intro h
  have hfail := h none _ (.range true [7]) (reach_of_run (l := [.close]) rfl) rfl
  exact not_failsCleanly_error _ _ (.assertion .notClosedNotFull) hfail

end Corral.Channel
