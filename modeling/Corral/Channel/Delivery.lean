import Corral.Channel.Transfer

/-!
# `Channel`: a claim is worth an object

An awaiter takes its object in `await_resume()`, long after it has claimed it, and other transfers
may come in between.

* `wakeAwaiters_ok`, `readTransfer_ok`: under the invariant of the claims no assertion of a receive
  fails;
* `Event.Fails`: the operation reports failure;
* `fails_only_if_closed`: an awaiter that asked for something and completes reports failure on a
  closed channel only, and a reader with a claim completes and gets an object.
-/

namespace Corral.Channel

open Registry ActionMachine

variable {T : Type*} {s t : State T} {limit : Option ℕ}

/-- The operation moved nothing: it returned `nullopt`, `false`, zero, or the iterator it was
given. -/
def Event.Fails : Event T → Prop
  | .received _ res => res.values = []
  | .sent _ w res => res = w.failure
  | .cancelled _ => False

/-- The front of a list of parked awaiters is a live awaiter without a claim. -/
theorem wakeAwaiters_ok {h : Half} (hl : Linked s.waiting s.awaiters s.nextId) :
    ∃ t, s.wakeAwaiters h = .ok t := by
  unfold State.wakeAwaiters
  split_ifs with hu
  · exact ⟨s, rfl⟩
  · cases hp : s.parked h with
    | nil => exact ⟨s, rfl⟩
    | cons id rest =>
      have hmem : id ∈ s.waiting h := by
        rw [waiting_cons_of_parked hp]
        exact List.mem_cons_self
      obtain ⟨a, ha, hw⟩ := hl.waits h id hmem
      simp only [ha, hw.unclaimed, Bool.false_eq_true, if_false]
      exact ⟨_, rfl⟩

/-- No assertion of a receive fails: what it takes is in the buffer. -/
theorem readTransfer_ok {c : ℕ} (hl : Linked s.waiting s.awaiters s.nextId)
    (hread : s.claims .read ≤ s.buf.size) (hle : c ≤ s.claims .read) (r : Recv) :
    ∃ p, s.readTransfer c r = .ok p := by
  have hsize := size_of_le hread
  have hwake : ∀ buf, ∃ t, (s.taken c buf).wakeAwaiters .write = .ok t :=
    fun buf => wakeAwaiters_ok hl
  have hbulk : ∀ n, n ≤ c + s.size → ∃ p, s.readBulk c n = .ok p := by
    intro n hn
    have hnb : n ≤ s.buf.size := by omega
    unfold State.readBulk
    by_cases h₀ : n = 0
    · exact ⟨_, if_pos h₀⟩
    · rw [if_neg h₀, if_neg (by omega), dif_pos hnb]
      obtain ⟨t, ht⟩ := hwake (s.buf.popFrontTo n hnb).2
      exact ⟨_, map_eq_ok.2 ⟨t, ht, rfl⟩⟩
  have hone : ∃ p, s.readOne c = .ok p := by
    unfold State.readOne
    by_cases h₀ : c = 0 ∧ s.size = 0
    · exact ⟨_, if_pos h₀⟩
    · have hb : s.buf.size ≠ 0 := by omega
      rw [if_neg h₀, dif_neg hb]
      obtain ⟨t, ht⟩ := hwake (s.buf.popFront hb).2
      exact ⟨_, map_eq_ok.2 ⟨t, ht, rfl⟩⟩
  rw [State.readTransfer.eq_def, if_neg (Nat.not_lt.2 hle)]
  cases r with
  | one =>
    obtain ⟨p, hp⟩ := hone
    exact ⟨_, map_eq_ok.2 ⟨p, hp, rfl⟩⟩
  | into n =>
    obtain ⟨p, hp⟩ := hbulk (min n (c + s.size)) (min_le_right _ _)
    exact ⟨_, map_eq_ok.2 ⟨p, hp, rfl⟩⟩
  | range forward len =>
    obtain ⟨p, hp⟩ := hbulk (if forward then min (c + s.size) len else c + s.size)
      (by split_ifs <;> omega)
    exact ⟨_, map_eq_ok.2 ⟨p, hp, rfl⟩⟩

/-- A loop records nothing. -/
theorem log_wakeAwaiters {h : Half} (hs : s.wakeAwaiters h = .ok t) :
    t.log = s.log ∧ t.closed = s.closed := by
  rcases wakeAwaiters_cases hs with ⟨rfl, -⟩ | ⟨id, rest, a, -, -, -, -, rfl⟩
  · exact ⟨rfl, rfl⟩
  · exact ⟨rfl, rfl⟩

/-- A transfer records what it did, and it reports failure only if it had no claim or nothing to
do. -/
theorem transfer_records {who : Option ℕ} {c : ℕ} {a : Awaiter T}
    (hs : s.transfer who c a.args = .ok t) :
    ∃ e, t.log = s.log ++ [e] ∧ e.who = who ∧ t.closed = s.closed ∧
      (e.Fails → c = 0 ∨ a.isNoop = true) ∧
      (a.half = .read → ∃ res, e = .received who res) := by
  rcases a with ⟨r | w, cl, ph⟩
  · obtain ⟨⟨res, u⟩, hu, rfl⟩ := map_eq_ok.1 hs
    obtain ⟨-, ⟨rfl, -, hno⟩ | ⟨buf, hne, -, -, -, hw⟩⟩ := readTransfer_cases hu
    · exact ⟨.received who res, rfl, rfl, rfl, fun _ => hno, fun _ => ⟨res, rfl⟩⟩
    · obtain ⟨hlog, hcl⟩ := log_wakeAwaiters hw
      refine ⟨.received who res, ?_, rfl, hcl, fun hf => absurd hf hne, fun _ => ⟨res, rfl⟩⟩
      exact congrArg (· ++ [_]) hlog
  · obtain ⟨⟨res, u⟩, hu, rfl⟩ := map_eq_ok.1 hs
    have hwrite : (⟨.inr w, cl, ph⟩ : Awaiter T).half ≠ .read := by simp [Awaiter.half]
    obtain ⟨-, ⟨rfl, -, hno⟩ | ⟨buf, hne, -, -, -, -, hw⟩⟩ := writeTransfer_cases hu
    · exact ⟨.sent who w res, rfl, rfl, rfl, fun _ => hno, fun h => absurd h hwrite⟩
    · obtain ⟨hlog, hcl⟩ := log_wakeAwaiters hw
      refine ⟨.sent who w res, congrArg (· ++ [_]) hlog, rfl, hcl, fun hf => absurd ?_ hne,
        fun h => absurd h hwrite⟩
      rw [show res = w.failure from hf]
      cases w <;> simp [Send.failure, Send.accepted]

/-- A claim is counted, and its holder may be resumed. -/
theorem Inv.of_claimed (hi : Inv limit s) {id : ℕ} {a : Awaiter T}
    (ha : s.awaiters.lookup id = some a) (hcl : a.claimed = true) :
    1 ≤ s.claims a.half ∧ a.isNoop = false ∧ (a.phase = .constructed ∨ a.phase = .woken) := by
  obtain ⟨hneeds, hph⟩ := hi.linked.claimOk id a ha hcl
  refine ⟨?_, hneeds, hph⟩
  have hcount := count_erase (Awaiter.holds a.half) ha
  have heq := hi.counted.claims_eq a.half
  rw [State.holders, ← hcount] at heq
  simp only [Awaiter.holds, hcl, decide_true, Bool.and_self, if_true] at heq
  omega

/-- The `await_resume()` of a reader with a claim goes through. -/
theorem Inv.awaitResume_ok (hi : Inv limit s) {id : ℕ} {a : Awaiter T}
    (ha : s.awaiters.lookup id = some a) (hr : a.half = .read) (hcl : a.claimed = true) :
    ∃ t, Channel.step s (.awaitResume id) = .ok t := by
  obtain ⟨hclaims, hneeds, hph⟩ := hi.of_claimed ha hcl
  have hready : s.ready a = true := by simp [State.ready, hcl]
  have hnot : ∀ h, id ∉ s.waiting h :=
    hi.linked.notMem_of_phase ha (by rcases hph with h | h <;> simp [h])
  have hl : Linked s.waiting (s.awaiters.insert id { a with claimed := false, phase := .done })
      s.nextId := hi.linked.replace (hi.linked.lt ha) hnot (fun h => by cases h)
  rw [hr] at hclaims
  have hphase : a.phase = .woken ∨ a.phase = .constructed ∧ s.ready a = true :=
    hph.symm.imp_right fun h => ⟨h, hready⟩
  simp only [Channel.step, State.withAwaiter, ha, State.awaitResume]
  rw [if_neg (not_not.2 hphase), if_neg (by simp [hready]), hcl, if_pos rfl]
  rcases a with ⟨r | w, cl, ph⟩
  · obtain ⟨p, hp⟩ := readTransfer_ok
      (s := s.setAwaiter id ⟨.inl r, false, .done⟩) hl hi.counted.claims_read_le hclaims r
    exact ⟨_, map_eq_ok.2 ⟨p, hp, rfl⟩⟩
  · cases hr

/-- An awaiter that asked for at least one object and completes reports failure only if the channel
is closed; and whatever has happened since it claimed one, a reader with a claim completes and
gets at least one object. -/
theorem fails_only_if_closed (hr : Reach step anyAction (newChannel limit) s) {id : ℕ}
    {a : Awaiter T} (ha : s.awaiters.lookup id = some a) (hneeds : a.isNoop = false) :
    (∀ t, step s (.awaitResume id) = .ok t →
      ∃ e, t.log = s.log ++ [e] ∧ e.who = some id ∧ t.closed = s.closed ∧
        (e.Fails → s.closed = true)) ∧
    (a.half = .read → a.claimed = true → ∃ t res,
      step s (.awaitResume id) = .ok t ∧ t.log = s.log ++ [.received (some id) res] ∧
        res.values ≠ []) := by
  have hi := inv_of_reach hr
  have hresumed : ∀ t, step s (.awaitResume id) = .ok t →
      ∃ e, t.log = s.log ++ [e] ∧ e.who = some id ∧ t.closed = s.closed ∧
        (e.Fails → a.claimed = false ∧ s.closed = true) ∧
        (a.half = .read → ∃ res, e = .received (some id) res) := by
    intro t hs
    obtain ⟨b, hb, hs⟩ := withAwaiter_eq_ok hs
    have hab : a = b := Option.some.inj (ha.symm.trans hb)
    subst hab
    obtain ⟨-, hready, ht⟩ := awaitResume_cases hs
    obtain ⟨e, hlog, hwho, hclosed, hfails, hread⟩ := transfer_records ht
    refine ⟨e, hlog, hwho, hclosed, fun hf => ?_, hread⟩
    rcases hfails hf with hc | hno
    · -- It had no claim and something to do, so it was ready because the channel is closed.
      have hcl : a.claimed = false := by
        by_contra h
        simp [h] at hc
      refine ⟨hcl, ?_⟩
      simpa [State.ready, hcl, hneeds] using hready
    · rw [hneeds] at hno
      cases hno
  refine ⟨fun t hs => ?_, fun hread hcl => ?_⟩
  · obtain ⟨e, hlog, hwho, hclosed, hfails, -⟩ := hresumed t hs
    exact ⟨e, hlog, hwho, hclosed, fun hf => (hfails hf).2⟩
  · obtain ⟨t, hs⟩ := hi.awaitResume_ok ha hread hcl
    obtain ⟨e, hlog, -, -, hfails, hres⟩ := hresumed t hs
    obtain ⟨res, rfl⟩ := hres hread
    refine ⟨t, res, hs, hlog, fun hnil => ?_⟩
    have hnot := (hfails hnil).1
    rw [hcl] at hnot
    cases hnot

/-- A reader claims the only object, which a non-blocking receive of another one cannot have. -/
def claimThenTry : List (Action ℕ) := [.trySend (.one 7), .newReceive .one, .tryReceive (.into 5)]

theorem fails_only_if_closed_claimThenTry :
    ∃ s, exec step (newChannel none) claimThenTry = .ok s ∧ ∃ t res,
      step s (.awaitResume 0) = .ok t ∧ t.log = s.log ++ [.received (some 0) res] ∧
        res.values ≠ [] := by
  refine ⟨_, rfl, ?_⟩
  exact (fails_only_if_closed (reach_of_run (s := newChannel none) (l := claimThenTry) rfl)
    (a := ⟨.inl .one, true, .constructed⟩) rfl rfl).2 rfl rfl

end Corral.Channel
