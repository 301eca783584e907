import Corral.Channel.Wakeups

/-!
# `Channel`: transfers that throw

`await_resume()` clears the claim bit before it calls `tryTransfer()`, which gives the claim back
before or after it calls code that may throw: a constructor of `T`, or an operation of the user's
iterator.

* `Throw`: where a transfer throws; `readThrows` and `writeThrows` are what it leaves behind, the
  overloads of `tryTransfer()` up to there;
* `stepThrowing`: the actions of the user's code, and an `await_resume()` that throws;
* `GivenBack`: the claim is given back, nothing in the buffer is lost, and nobody sleeps on what the
  claim was for;
* `given_back_iff`: this is so if and only if there was no claim, or it was the one of a `send(value)`
  with nobody else to be woken.

Constructors that throw leave the objects of the queue where they are, and an object that is moved from
keeps its value here.  An exception of a returned iterator comes after the claim has been settled, and
leaves behind what a transfer that returns does.
-/

namespace Corral.Channel

open Registry ActionMachine

/-- Where a transfer throws: in an operation of the user's iterator before the buffer is touched, or
when it has moved `k` objects. -/
inductive Throw
  | early
  | after (k : ℕ)
  deriving DecidableEq

variable {T : Type*}

/-! ### What an exception leaves behind -/

/-- How many objects `pop_front_to(n, dst)` has removed when it throws after having moved `k` of them:
it destroys the objects of a chunk once it has moved all of them. -/
def removedBefore (buf : Queue T) (n k : ℕ) : ℕ :=
  let n₁ := min n (buf.capacity - buf.raw.head)
  if k < n₁ then 0 else if k < n then n₁ else n

theorem removedBefore_le (buf : Queue T) (n k : ℕ) : removedBefore buf n k ≤ n := by
  simp only [removedBefore]
  split_ifs <;> omega

def State.readBulkThrows (s : State T) (n k : ℕ) : Except Fault (State T) :=
  if n = 0 ∨ n < k then .error .protocol
  else if s.buf.size = 0 then .error (.assertion .notEmpty)
  else if hn : n ≤ s.buf.size then
    .ok { s with
      buf := (s.buf.popFrontTo (removedBefore s.buf n k) ((removedBefore_le _ n k).trans hn)).2 }
  else .error (.assertion .popBound)

/-- The overloads of `ReadHalf::tryTransfer()`; none of them has settled the claim by then. -/
def State.readThrows (s : State T) (claimedCount : ℕ) (r : Recv) (w : Throw) :
    Except Fault (State T) :=
  if s.claims .read < claimedCount then .error (.assertion .claimedCount)
  else match r, w with
    | .one, .early => .error .protocol
    | .one, .after k =>
      -- it throws in `data(std::move(front()))`, if it gets there
      if claimedCount = 0 ∧ s.size = 0 ∨ k ≠ 0 then .error .protocol
      else if s.buf.size = 0 then .error (.assertion .notEmpty)
      else .ok s
    | .into _, .early => .ok s
    | .into n, .after k => s.readBulkThrows (min n (claimedCount + s.size)) k
    | .range _ _, .early => .ok s
    | .range forward len, .after k =>
      let n := claimedCount + s.size
      s.readBulkThrows (if forward then min n len else n) k

def State.writeBulkThrows (s : State T) (claimedCount : ℕ) (randomAccess : Bool) (xs : List T)
    (k : ℕ) : Except Fault (State T) :=
  if xs.isEmpty ∨ s.avail claimedCount = 0 ∨ min xs.length (s.avail claimedCount) < k then
    .error .protocol
  else if s.closed || s.reallyFull then .error (.assertion .notClosedNotFull)
  -- `append()` adds all objects or none, the loop has added those before the exception
  else if randomAccess then .ok s
  else .ok { s with buf := (pushLoop s.buf k xs).1 }

/-- The overloads of `WriteHalf::tryTransfer()`; only the first one has settled the claim by then. -/
def State.writeThrows (s : State T) (claimedCount : ℕ) (x : Send T) (w : Throw) :
    Except Fault (State T) :=
  if s.claims .write < claimedCount then .error (.assertion .claimedCount)
  else match x, w with
    | .one _, .early => .error .protocol
    | .one _, .after k =>
      if claimedCount = 0 ∧ s.space = 0 ∨ k ≠ 0 then .error .protocol
      else if s.closed || s.reallyFull then .error (.assertion .notClosedNotFull)
      else .ok (s.settle .write claimedCount)
    | .iter _ _, .early => .ok s
    | .iter randomAccess xs, .after k => s.writeBulkThrows claimedCount randomAccess xs k
    | .range _ _, .early => .ok s
    | .range randomAccess xs, .after k => s.writeBulkThrows claimedCount randomAccess xs k

def State.transferThrows (s : State T) (claimedCount : ℕ) (w : Throw) :
    Recv ⊕ Send T → Except Fault (State T)
  | .inl r => s.readThrows claimedCount r w
  | .inr x => s.writeThrows claimedCount x w

/-- `Awaiter::await_resume()`, when `tryTransfer()` throws. -/
def State.awaitThrows (s : State T) (id : ℕ) (a : Awaiter T) (w : Throw) : Except Fault (State T) :=
  if ¬ (a.phase = .woken ∨ a.phase = .constructed ∧ s.ready a) then .error .protocol
  else if s.ready a = false then .error (.assertion .ready)
  else (s.setAwaiter id { a with claimed := false, phase := .done }).transferThrows
    (if a.claimed then 1 else 0) w a.args

/-- The actions of the user's code, when transfers may throw. -/
inductive ThrowingAction (T : Type*)
  | act (act : Action T)
  | throws (id : ℕ) (w : Throw)

def stepThrowing (s : State T) : ThrowingAction T → Except Fault (State T)
  | .act a => step s a
  | .throws id w => s.withAwaiter id fun a => s.awaitThrows id a w

/-! ### Cases -/

variable {s t : State T} {c : ℕ} {limit : Option ℕ} {w : Throw}

/-- A receive that throws has removed some objects at most. -/
theorem readThrows_cases {r : Recv} (hs : s.readThrows c r w = .ok t) :
    ∃ k buf, k ≤ c + s.size ∧ s.buf.size = k + buf.size ∧ buf.capacity = s.buf.capacity ∧
      t = { s with buf := buf } := by
  have hnone : ∃ k buf, k ≤ c + s.size ∧ s.buf.size = k + buf.size ∧
      buf.capacity = s.buf.capacity ∧ s = { s with buf := buf } :=
    ⟨0, s.buf, by omega, by omega, rfl, rfl⟩
  have hbulk : ∀ n k, n ≤ c + s.size → s.readBulkThrows n k = .ok t →
      ∃ k buf, k ≤ c + s.size ∧ s.buf.size = k + buf.size ∧ buf.capacity = s.buf.capacity ∧
        t = { s with buf := buf } := by
    intro n k hle hs
    unfold State.readBulkThrows at hs
    split_ifs at hs with h₀ h₁ hn
    cases hs
    have hrem := removedBefore_le s.buf n k
    refine ⟨removedBefore s.buf n k, _, by omega, ?_, s.buf.capacity_popFrontTo _, rfl⟩
    have hcont := congrArg List.length (s.buf.contents_eq_popFrontTo (hrem.trans hn))
    rw [List.length_append, s.buf.length_popFrontTo, ← Queue.size_eq, ← Queue.size_eq] at hcont
    exact hcont
  unfold State.readThrows at hs
  by_cases hc : s.claims .read < c
  · rw [if_pos hc] at hs
    cases hs
  rw [if_neg hc] at hs
  cases r with
  | one =>
    cases w with
    | early => cases hs
    | after k =>
      simp only at hs
      split_ifs at hs
      cases hs
      exact hnone
  | into n =>
    cases w with
    | early => cases hs; exact hnone
    | after k => exact hbulk _ k (min_le_right _ _) hs
  | range forward len =>
    cases w with
    | early => cases hs; exact hnone
    | after k => exact hbulk _ k (by split_ifs <;> omega) hs

/-- A bulk send that throws has added some objects at most. -/
theorem writeBulkThrows_cases {ra : Bool} {xs : List T} {k : ℕ}
    (hs : s.writeBulkThrows c ra xs k = .ok t) :
    s.closed = false ∧ ∃ k buf, (s.bounded = true → k ≤ c + s.space) ∧
      buf.size = s.buf.size + k ∧
      (s.buf.size + k ≤ s.buf.capacity → buf.capacity = s.buf.capacity) ∧
      t = { s with buf := buf } := by
  unfold State.writeBulkThrows at hs
  split_ifs at hs with h₀ h₁ hra
  · cases hs
    exact ⟨by simp_all, 0, s.buf, by omega, rfl, fun _ => rfl, rfl⟩
  · cases hs
    obtain ⟨-, hcont, hcap⟩ := pushLoop_spec s.buf k xs
    have hmin : min xs.length k = k := by omega
    rw [hmin] at hcont hcap
    refine ⟨by simp_all, k, _, fun hb => ?_, ?_, hcap, rfl⟩
    · simp only [State.avail, hb, if_true] at h₀
      omega
    · rw [Queue.size_eq, Queue.size_eq, hcont, List.length_append, List.length_take]
      omega

theorem writeThrows_cases {x : Send T} (hs : s.writeThrows c x w = .ok t) :
    ((∃ y, x = .one y) ∧ s.closed = false ∧ t = s.settle .write c) ∨
    ((∀ y, x ≠ .one y) ∧ (t = s ∨ s.closed = false ∧ ∃ k buf,
      (s.bounded = true → k ≤ c + s.space) ∧ buf.size = s.buf.size + k ∧
      (s.buf.size + k ≤ s.buf.capacity → buf.capacity = s.buf.capacity) ∧
      t = { s with buf := buf })) := by
  unfold State.writeThrows at hs
  by_cases hc : s.claims .write < c
  · rw [if_pos hc] at hs
    cases hs
  rw [if_neg hc] at hs
  cases x with
  | one y =>
    cases w with
    | early => cases hs
    | after k =>
      simp only at hs
      split_ifs at hs with h₀ h₁
      cases hs
      exact .inl ⟨⟨y, rfl⟩, by simp_all, rfl⟩
  | iter ra xs =>
    cases w with
    | early => cases hs; exact .inr ⟨nofun, .inl rfl⟩
    | after k => exact .inr ⟨nofun, .inr (writeBulkThrows_cases hs)⟩
  | range ra xs =>
    cases w with
    | early => cases hs; exact .inr ⟨nofun, .inl rfl⟩
    | after k => exact .inr ⟨nofun, .inr (writeBulkThrows_cases hs)⟩

theorem awaitThrows_cases {id : ℕ} {a : Awaiter T} (hs : s.awaitThrows id a w = .ok t) :
    (a.phase = .woken ∨ a.phase = .constructed) ∧
    (s.setAwaiter id { a with claimed := false, phase := .done }).transferThrows
      (if a.claimed then 1 else 0) w a.args = .ok t := by
  unfold State.awaitThrows at hs
  by_cases hph : a.phase = .woken ∨ a.phase = .constructed ∧ s.ready a
  · rw [if_neg (not_not_intro hph)] at hs
    by_cases hr : s.ready a = false
    · rw [if_pos hr] at hs
      cases hs
    · rw [if_neg hr] at hs
      exact ⟨hph.imp_right And.left, hs⟩
  · rw [if_pos hph] at hs
    cases hs

/-! ### Who gives the claim back -/

/-- The awaiter holds no claim, or it is a `send(value)` and no other writer is to be woken, except by
a loop that is in progress. -/
def Spared (s : State T) (a : Awaiter T) : Prop :=
  a.claimed = false ∨
    (∃ x, a.args = .inr (.one x)) ∧ (.wake .write ∈ s.frames ∨ s.parked .write = [])

/-- The claim of `a` has been given back: the counter is the number of claims of live awaiters, each
object in the buffer is claimed by one of them or can be received, and nobody sleeps on what the claim
was for. -/
structure GivenBack (a : Awaiter T) (t : State T) : Prop where
  counted : t.claims a.half = t.holders a.half
  receivable : t.size + t.holders .read = t.buf.size
  woken : a.claimed = true → Served t a.half

theorem settle_zero (s : State T) (h : Half) : s.settle h 0 = s := by
  simp [State.settle]

theorem Inv.receivable (hi : Inv limit s) : s.size + s.holders .read = s.buf.size := by
  have heq := hi.counted.claims_eq .read
  have hle := hi.counted.claims_read_le
  rw [size_of_le hle]
  omega

/-- Without a claim there is nothing to give back. -/
theorem inv_transferThrows {args : Recv ⊕ Send T} (hi : Inv limit s)
    (hs : s.transferThrows 0 w args = .ok t) : Inv limit t := by
  have hc : ∀ h, Counted (owes h 0) s := fun h => by simpa [owes] using hi.counted
  cases args with
  | inl r =>
    obtain ⟨k, buf, hk, hsize, hcap, rfl⟩ := readThrows_cases hs
    have ht := Inv.taken hi.linked (hc .read) hi.limit_eq (Nat.zero_le _) hk hsize hcap
    rwa [State.taken, settle_zero] at ht
  | inr x =>
    rcases writeThrows_cases hs with ⟨-, hopen, rfl⟩ | ⟨-, rfl | ⟨hopen, k, buf, hk, hsize, hcap, rfl⟩⟩
    · rwa [settle_zero]
    · exact hi
    · have ht := Inv.put hi.linked (hc .write) hi.limit_eq (Nat.zero_le _) hopen hk hsize hcap
      rwa [State.put, settle_zero] at ht

/-- A claim that is still counted is not given back. -/
theorem not_givenBack {a : Awaiter T} (hc : Counted (owes a.half 1) s) (hcl : t.claims = s.claims)
    (haw : t.awaiters = s.awaiters) : ¬ GivenBack a t := by
  intro hg
  have heq := hg.counted
  rw [State.holders, haw, hcl, hc.claims_eq a.half] at heq
  simp only [State.holders, owes, Function.update_self] at heq
  omega

/-- A writer that has given its claim back leaves a slot. -/
theorem space_settle (hc : Counted (owes .write 1) s) (hopen : s.closed = false) :
    (s.settle .write 1).unclaimedCount .write ≠ 0 := by
  have ht := hc.settle
  have hclaims := hc.claims_eq .write
  simp only [owes, Function.update_self] at hclaims
  cases hb : s.bounded with
  | false =>
    rw [State.unclaimedCount, space_of_unbounded (s := s.settle .write 1) hopen hb]
    norm_num [sizeMax]
  | true =>
    have hle := hc.claims_write_le hb
    rw [State.unclaimedCount, space_of_bounded (s := s.settle .write 1) hopen hb
      (ht.claims_write_le hb)]
    show s.buf.capacity - s.buf.size -
      (Function.update s.claims .write (s.claims .write - 1)) .write ≠ 0
    rw [Function.update_self]
    omega

/-- What an `await_resume()` that throws leaves behind. -/
theorem awaitThrows_spec (hi : Inv limit s) {id : ℕ} {a : Awaiter T}
    (ha : s.awaiters.lookup id = some a) (hs : s.awaitThrows id a w = .ok t) :
    (Spared s a → Inv limit t) ∧ (GivenBack a t ↔ Spared s a) := by
  obtain ⟨hph, htr⟩ := awaitThrows_cases hs
  have hnot := hi.linked.notMem_of_phase ha (by rcases hph with h | h <;> simp [h])
  have hl : Linked s.waiting (s.awaiters.insert id { a with claimed := false, phase := .done })
      s.nextId := hi.linked.replace (hi.linked.lt ha) hnot nofun
  have hclear : ({ a with claimed := false, phase := .done } : Awaiter T).claimed = false := rfl
  have hc := hi.counted.clear ha hclear
  cases hcl : a.claimed with
  | false =>
    rw [hcl] at htr hc
    have ht : Inv limit t := by
      refine inv_transferThrows (s := s.setAwaiter id _) ⟨hl, ?_, hi.limit_eq⟩ htr
      simpa [owes] using hc
    exact ⟨fun _ => ht, fun _ => .inl hcl, fun _ =>
      ⟨ht.counted.claims_eq a.half, ht.receivable, fun h => by rw [hcl] at h; cases h⟩⟩
  | true =>
    rw [hcl, if_pos rfl] at htr hc
    rcases a with ⟨r | x, cl, ph⟩
    · obtain ⟨k, buf, -, -, -, rfl⟩ := readThrows_cases htr
      have hng := not_givenBack (t := { s.setAwaiter id _ with buf := buf }) hc rfl rfl
      have hns : ¬ Spared s ⟨.inl r, cl, ph⟩ := by
        rintro (h | ⟨⟨x, hx⟩, -⟩)
        · rw [hcl] at h; cases h
        · cases hx
      exact ⟨fun h => absurd h hns, iff_of_false hng hns⟩
    · rcases writeThrows_cases htr with ⟨⟨y, rfl⟩, hopen, rfl⟩ | ⟨hx, hrest⟩
      · -- the claim is given back, and there is a slot for the next writer
        have ht : Inv limit ((s.setAwaiter id
            { (⟨.inr (.one y), cl, ph⟩ : Awaiter T) with claimed := false, phase := .done }).settle
              .write 1) := ⟨hl, hc.settle, hi.limit_eq⟩
        refine ⟨fun _ => ht, fun hg => .inr ⟨⟨y, rfl⟩, ?_⟩, fun hsp =>
          ⟨ht.counted.claims_eq .write, ht.receivable, fun _ => ?_⟩⟩
        · rcases hg.woken hcl with hf | hp | hz
          · exact .inl hf
          · exact .inr hp
          · exact absurd hz (space_settle hc hopen)
        · rcases hsp with h | ⟨-, hf | hp⟩
          · rw [hcl] at h; cases h
          · exact .inl hf
          · exact .inr (.inl hp)
      · have hng : ¬ GivenBack ⟨.inr x, cl, ph⟩ t := by
          rcases hrest with rfl | ⟨-, k, buf, -, -, -, rfl⟩
          · exact not_givenBack hc rfl rfl
          · exact not_givenBack hc rfl rfl
        have hns : ¬ Spared s ⟨.inr x, cl, ph⟩ := by
          rintro (h | ⟨⟨y, hy⟩, -⟩)
          · rw [hcl] at h; cases h
          · exact hx y (Sum.inr.inj hy)
        exact ⟨fun h => absurd h hns, iff_of_false hng hns⟩

/-! ### Runs -/

/-- Whoever throws is spared. -/
def Spares (s : State T) : ThrowingAction T → Prop
  | .act _ => True
  | .throws id _ => ∀ a, s.awaiters.lookup id = some a → Spared s a

/-- The run lemma. -/
theorem inv_of_reach_throwing (hr : Reach stepThrowing Spares (newChannel limit) s) :
    Inv limit s := by
  refine hr.invariant (inv_newChannel limit) fun s act t hi hok hs => ?_
  cases act with
  | act act => exact hi.step hs
  | throws id w =>
    obtain ⟨a, ha, hs⟩ := withAwaiter_eq_ok hs
    exact (awaitThrows_spec hi ha hs).1 (hok a ha)

/-- In every run in which whoever throws is spared the claims are those of live awaiters, and each
object in the buffer is claimed by one of them or can be received.  A transfer that throws then gives
its claim back if and only if it is spared. -/
theorem given_back_iff (hr : Reach stepThrowing Spares (newChannel limit) s) :
    (∀ h, s.claims h = s.holders h) ∧ s.size + s.holders .read = s.buf.size ∧
    ∀ id w a t, s.awaiters.lookup id = some a → stepThrowing s (.throws id w) = .ok t →
      (GivenBack a t ↔ Spared s a) := by
  have hi := inv_of_reach_throwing hr
  refine ⟨hi.counted.claims_eq, hi.receivable, fun id w a t ha hs => ?_⟩
  obtain ⟨b, hb, hs⟩ := withAwaiter_eq_ok hs
  rw [ha] at hb
  cases hb
  exact (awaitThrows_spec hi ha hs).2

/-- A writer claims the only slot, and its `await_resume()` throws. -/
def throwingWriter : List (ThrowingAction ℕ) :=
  [.act (.newSend (.one 7)), .throws 0 (.after 0)]

/-- A reader claims the only object, and its `await_resume()` throws. -/
def throwingReader : List (ThrowingAction ℕ) :=
  [.act (.trySend (.one 7)), .act (.newReceive .one), .throws 0 (.after 0)]

theorem given_back_iff_throwingWriter :
    ∃ s, exec stepThrowing (newChannel (some 1)) throwingWriter = .ok s ∧ s.claims .write = 0 ∧
      s.space = 1 ∧ ∀ h, s.claims h = s.holders h := by
  refine ⟨_, rfl, rfl, rfl, ?_⟩
  refine (given_back_iff (show Reach stepThrowing Spares (newChannel (some 1)) _ from
    Reach.refl.tail (a := .act (.newSend (.one 7))) trivial rfl
      |>.tail (a := .throws 0 (.after 0)) ?_ rfl)).1
  intro a ha
  cases ha
  exact .inr ⟨⟨7, rfl⟩, .inr rfl⟩

theorem not_given_back : ¬ ∀ (limit : Option ℕ) (s t : State ℕ) (id : ℕ) (w : Throw) (a : Awaiter ℕ),
    Reach stepThrowing anyAction (newChannel limit) s → s.awaiters.lookup id = some a →
    stepThrowing s (.throws id w) = .ok t → GivenBack a t := by
  intro h
  have hr : ∃ s, exec stepThrowing (newChannel none) (throwingReader.take 2) = .ok s ∧
      ∃ t a, s.awaiters.lookup 0 = some a ∧ stepThrowing s (.throws 0 (.after 0)) = .ok t ∧
        a.half = .read ∧ t.claims .read = 1 ∧ t.holders .read = 0 := ⟨_, rfl, _, _, rfl, rfl, rfl, rfl, rfl⟩
  obtain ⟨s, hrun, t, a, ha, hs, hhalf, hclaims, hholders⟩ := hr
  have hg := (h none s t 0 (.after 0) a (reach_of_run hrun) ha hs).counted
  rw [hhalf, hclaims, hholders] at hg
  cases hg

end Corral.Channel
