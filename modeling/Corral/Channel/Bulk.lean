import Corral.Channel.Delivery

/-!
# `Channel`: bulk operations

A bulk `trySend()` or `tryReceive()` moves its objects at once and then wakes the other half; a loop
over the scalar ones wakes after every object.  Where the woken tasks are only scheduled, the two
come to the same.

* `Calls s act ids t`: the call `act` takes `s` to `t` while every `resume()` returns at once, and
  it resumes the awaiters `ids`, in this order;
* `Sends`, `Receives`: a loop over the scalar call until it fails;
* `State.wakeFirst h n`: the first `n` parked awaiters of half `h` are claimed and woken; `scheduled`
  says that a `wakeAwaiters()` loop does this, with `n` as in `State.toWake`;
* `bulk_eq_scalar`: the two ways agree.
-/

namespace Corral.Channel

open Registry ActionMachine

variable {T : Type*} {s t u : State T} {limit : Option ℕ}

/-! ### Calls whose woken tasks are only scheduled -/

/-- The suspended awaiters of `s` whose handles have been resumed in `t`. -/
def State.resumedBy (s t : State T) : List ℕ :=
  (s.parked .read ++ s.parked .write).filter fun id =>
    (t.awaiters.lookup id).map Awaiter.phase = some .woken

/-- The call at depth `d` of the stack runs to its end, as every `resume()` returns at once. -/
inductive Scheduled (d : ℕ) : State T → List ℕ → State T → Prop
  | done {s : State T} : s.frames.length = d → Scheduled d s [] s
  | next {s t u : State T} {ids : List ℕ} : d < s.frames.length → s.resumeReturns = .ok t →
      Scheduled d t ids u → Scheduled d s (s.resumedBy t ++ ids) u

/-- The call `act` takes `s` to `t`, and the tasks it wakes, those of the awaiters `ids`, are only
scheduled. -/
def Calls (s : State T) (act : Action T) (ids : List ℕ) (t : State T) : Prop :=
  ∃ u ids', step s act = .ok u ∧ Scheduled s.frames.length u ids' t ∧
    ids = s.resumedBy u ++ ids'

/-- `trySend(x)` on each element until it returns false: the number of objects sent, and the
awaiters resumed. -/
inductive Sends : State T → List T → ℕ → List ℕ → State T → Prop
  | nil {s : State T} : Sends s [] 0 [] s
  | refused {s t : State T} {x : T} {xs : List T} {ids : List ℕ} :
      Calls s (.trySend (.one x)) ids t →
      t.log = s.log ++ [.sent none (.one x) (.one false)] → Sends s (x :: xs) 0 ids t
  | sent {s t u : State T} {x : T} {xs : List T} {n : ℕ} {ids ids' : List ℕ} :
      Calls s (.trySend (.one x)) ids t →
      t.log = s.log ++ [.sent none (.one x) (.one true)] → Sends t xs n ids' u →
      Sends s (x :: xs) (n + 1) (ids ++ ids') u

/-- `tryReceive()` until it returns `nullopt` or `n` objects have been taken: the objects, and the
awaiters resumed. -/
inductive Receives : State T → ℕ → List T → List ℕ → State T → Prop
  | enough {s : State T} : Receives s 0 [] [] s
  | refused {s t : State T} {n : ℕ} {ids : List ℕ} :
      Calls s (.tryReceive .one) ids t →
      t.log = s.log ++ [.received none (.one none)] → Receives s (n + 1) [] ids t
  | received {s t u : State T} {n : ℕ} {x : T} {out : List T} {ids ids' : List ℕ} :
      Calls s (.tryReceive .one) ids t →
      t.log = s.log ++ [.received none (.one (some x))] → Receives t n out ids' u →
      Receives s (n + 1) (x :: out) (ids ++ ids') u

/-- The same channel, up to the log and to where the objects lie in the memory of the buffer. -/
structure Same (s t : State T) : Prop where
  bounded : s.bounded = t.bounded
  closed : s.closed = t.closed
  contents : s.buf.contents = t.buf.contents
  capacity : s.bounded = true → s.buf.capacity = t.buf.capacity
  claims : s.claims = t.claims
  parked : s.parked = t.parked
  awaiters : s.awaiters = t.awaiters
  nextId : s.nextId = t.nextId
  frames : s.frames = t.frames

/-! ### Waking several awaiters -/

/-- The awaiter at the front of the list of half `h` is claimed and woken. -/
def wakeOne (h : Half) (s : State T) : State T :=
  match s.parked h with
  | [] => s
  | id :: rest => match s.awaiters.lookup id with
    | none => s
    | some a =>
      { s.claim id { a with phase := .woken } with parked := Function.update s.parked h rest }

def State.wakeFirst (s : State T) (h : Half) (n : ℕ) : State T := (wakeOne h)^[n] s

/-- The buffer and the log are exchanged. -/
def State.hold (s : State T) (buf : Queue T) (log : List (Event T)) : State T :=
  { s with buf := buf, log := log }

theorem wakeOne_hold (h : Half) (s : State T) (buf : Queue T) (log : List (Event T)) :
    wakeOne h (s.hold buf log) = (wakeOne h s).hold buf log := by
  have hparked : (s.hold buf log).parked h = s.parked h := rfl
  have hlookup : ∀ id, (s.hold buf log).awaiters.lookup id = s.awaiters.lookup id := fun _ => rfl
  unfold wakeOne
  rw [hparked]
  cases s.parked h with
  | nil => rfl
  | cons id rest =>
    simp only [hlookup]
    cases s.awaiters.lookup id <;> rfl

theorem wakeFirst_hold (s : State T) (h : Half) (n : ℕ) (buf : Queue T) (log : List (Event T)) :
    (s.hold buf log).wakeFirst h n = (s.wakeFirst h n).hold buf log := by
  induction n generalizing s with
  | zero => rfl
  | succ n ih =>
    show (wakeOne h (s.hold buf log)).wakeFirst h n = ((wakeOne h s).wakeFirst h n).hold buf log
    rw [wakeOne_hold, ih]

theorem wakeFirst_add (s : State T) (h : Half) (m n : ℕ) :
    (s.wakeFirst h m).wakeFirst h n = s.wakeFirst h (m + n) := by
  rw [State.wakeFirst, State.wakeFirst, State.wakeFirst, Nat.add_comm, Function.iterate_add_apply]

/-- How many awaiters of half `h` a loop wakes. -/
def State.toWake (s : State T) (h : Half) : ℕ :=
  if h = .write ∧ s.bounded = false then (s.parked h).length
  else min (s.parked h).length (s.unclaimedCount h)

theorem toWake_le (s : State T) (h : Half) : s.toWake h ≤ (s.parked h).length := by
  unfold State.toWake
  split_ifs
  · exact le_rfl
  · exact min_le_left _ _

/-- The unclaimed count of a half of an open channel, on which nothing is promised twice. -/
theorem Inv.unclaimedCount_eq (hi : Inv limit s) (hopen : s.closed = false) (h : Half) :
    (h = .read ∧ s.unclaimedCount h + s.claims h = s.buf.size) ∨
    (h = .write ∧ s.bounded = false ∧ s.unclaimedCount h = sizeMax) ∨
    (h = .write ∧ s.bounded = true ∧
      s.unclaimedCount h + s.claims h + s.buf.size = s.buf.capacity) := by
  cases h with
  | read =>
    have hle := hi.counted.claims_read_le
    refine Or.inl ⟨rfl, ?_⟩
    rw [State.unclaimedCount, size_of_le hle]
    omega
  | write =>
    cases hb : s.bounded with
    | false => exact Or.inr (Or.inl ⟨rfl, rfl, space_of_unbounded hopen hb⟩)
    | true =>
      have hle := hi.counted.claims_write_le hb
      refine Or.inr (Or.inr ⟨rfl, rfl, ?_⟩)
      rw [State.unclaimedCount, space_of_bounded hopen hb hle]
      omega

/-- What waking the first awaiter of a half does, when there is something to claim. -/
structure Wakes (s : State T) (h : Half) (t : State T) : Prop where
  parked : t.parked h = (s.parked h).tail
  claims : t.claims = Function.update s.claims h (s.claims h + 1)
  bounded : t.bounded = s.bounded
  closed : t.closed = s.closed
  buf : t.buf = s.buf

theorem Inv.wakeOne (hi : Inv limit s) {h : Half} {id : ℕ} {rest : List ℕ}
    (hp : s.parked h = id :: rest) (hu : s.unclaimedCount h ≠ 0) :
    ∃ a, s.awaiters.lookup id = some a ∧ a.Waits h ∧
      Channel.wakeOne h s =
        { s.claim id { a with phase := .woken } with parked := Function.update s.parked h rest } ∧
      Inv limit (Channel.wakeOne h s) ∧ Wakes s h (Channel.wakeOne h s) := by
  obtain ⟨a, ha, hw⟩ := hi.linked.waits h id (by simp [waiting_cons_of_parked hp])
  have heq : Channel.wakeOne h s =
      { s.claim id { a with phase := .woken } with
        parked := Function.update s.parked h rest } := by
    simp only [Channel.wakeOne, hp, ha]
  refine ⟨a, ha, hw, heq, ?_, ?_⟩
  · rw [heq]
    refine (hi.woken hu hp ha).relink (fun h' => ?_) rfl rfl rfl rfl rfl
    simp [State.woken, State.waiting, State.claim, Frame.waiting]
  · rw [heq]
    refine ⟨?_, ?_, rfl, rfl, rfl⟩
    · rw [hp]
      exact Function.update_self _ _ _
    · show Function.update s.claims a.half (s.claims a.half + 1) = _
      rw [hw.half]

/-- Where there is somebody to wake there is something to claim. -/
theorem Inv.exists_of_toWake (hi : Inv limit s) (hopen : s.closed = false) {h : Half} {n : ℕ}
    (hn : s.toWake h = n + 1) :
    (∃ id rest, s.parked h = id :: rest) ∧ s.unclaimedCount h ≠ 0 := by
  constructor
  · have hlen := toWake_le s h
    cases hp : s.parked h with
    | nil => rw [hp, hn] at hlen; simp at hlen
    | cons id rest => exact ⟨id, rest, rfl⟩
  · have hmax : sizeMax ≠ 0 := by norm_num [sizeMax]
    unfold State.toWake at hn
    split_ifs at hn with hw
    · rcases hi.unclaimedCount_eq hopen h with ⟨h₁, -⟩ | ⟨-, -, h₃⟩ | ⟨-, h₂, -⟩
      · rw [hw.1] at h₁; cases h₁
      · rwa [h₃]
      · rw [hw.2] at h₂; cases h₂
    · omega

/-- One awaiter woken leaves one less to wake. -/
theorem Inv.toWake_wakeOne (hi : Inv limit s) (hopen : s.closed = false) {h : Half} {n : ℕ}
    (hn : s.toWake h = n + 1) :
    Inv limit (Channel.wakeOne h s) ∧ Wakes s h (Channel.wakeOne h s) ∧
      (Channel.wakeOne h s).toWake h = n := by
  obtain ⟨⟨id, rest, hp⟩, hu⟩ := hi.exists_of_toWake hopen hn
  obtain ⟨a, -, -, -, hi', hw⟩ := hi.wakeOne hp hu
  refine ⟨hi', hw, ?_⟩
  have hcount := hi.unclaimedCount_eq hopen h
  have hcount' := hi'.unclaimedCount_eq (hw.closed.trans hopen) h
  have hparked : ((Channel.wakeOne h s).parked h).length = (s.parked h).length - 1 := by
    rw [hw.parked, List.length_tail]
  unfold State.toWake at hn ⊢
  rw [hw.bounded, hparked]
  split_ifs at hn ⊢ with hcase
  · omega
  · rw [hw.claims, hw.buf, hw.bounded, Function.update_self] at hcount'
    rcases hcount with ⟨rfl, hc⟩ | ⟨h₁, h₂, -⟩ | ⟨rfl, h₂, hc⟩
    · rcases hcount' with ⟨-, hc'⟩ | ⟨h₁', -⟩ | ⟨h₁', -⟩
      · omega
      · cases h₁'
      · cases h₁'
    · exact absurd ⟨h₁, h₂⟩ hcase
    · rcases hcount' with ⟨h₁', -⟩ | ⟨-, h₂', -⟩ | ⟨-, -, hc'⟩
      · cases h₁'
      · rw [h₂] at h₂'; cases h₂'
      · omega

/-- What the first awaiters of a half leave behind when they have been woken. -/
theorem Inv.wakeFirst (hi : Inv limit s) (hopen : s.closed = false) {h : Half} {k : ℕ}
    (hk : k ≤ s.toWake h) :
    Inv limit (s.wakeFirst h k) ∧ (s.wakeFirst h k).parked h = (s.parked h).drop k ∧
      (s.wakeFirst h k).claims = Function.update s.claims h (s.claims h + k) ∧
      (s.wakeFirst h k).bounded = s.bounded ∧ (s.wakeFirst h k).closed = false ∧
      (s.wakeFirst h k).buf = s.buf := by
  induction k generalizing s with
  | zero => exact ⟨hi, rfl, (Function.update_eq_self h s.claims).symm, rfl, hopen, rfl⟩
  | succ k ih =>
    obtain ⟨n, hn⟩ : ∃ n, s.toWake h = n + 1 := ⟨s.toWake h - 1, by omega⟩
    obtain ⟨hi', hw, hn'⟩ := hi.toWake_wakeOne hopen hn
    obtain ⟨hinv, hp, hc, hb, hcl, hbuf⟩ := ih hi' (hw.closed.trans hopen) (by omega)
    refine ⟨hinv, hp.trans ?_, hc.trans ?_, hb.trans hw.bounded, hcl, hbuf.trans hw.buf⟩
    · rw [hw.parked, List.drop_tail]
    · rw [hw.claims, Function.update_self, Function.update_idem, Nat.add_right_comm, Nat.add_assoc]

/-! ### The loop -/

/-- Nobody has been resumed while the awaiters stay as they are. -/
theorem resumedBy_self (hl : Linked s.waiting s.awaiters s.nextId) : s.resumedBy s = [] := by
  rw [State.resumedBy, List.filter_eq_nil_iff]
  intro id hid hwoken
  obtain ⟨h, hmem⟩ : ∃ h, id ∈ s.waiting h := by
    rcases List.mem_append.1 hid with h | h
    · exact ⟨.read, List.mem_append_left _ h⟩
    · exact ⟨.write, List.mem_append_left _ h⟩
  obtain ⟨a, ha, hw⟩ := hl.waits h id hmem
  simp [ha, hw.phase] at hwoken

/-- A loop resumes the awaiter at the front of its list. -/
theorem resumedBy_woken (hl : Linked s.waiting s.awaiters s.nextId) {h : Half} {id : ℕ}
    {rest : List ℕ} {a : Awaiter T} (hp : s.parked h = id :: rest) :
    s.resumedBy (s.woken h id rest a) = [id] := by
  have hsame : ∀ k, k ≠ id → (s.woken h id rest a).awaiters.lookup k = s.awaiters.lookup k :=
    fun k hk => AList.lookup_insert_ne hk
  have hself : ((s.woken h id rest a).awaiters.lookup id).map Awaiter.phase = some .woken := by
    have hlook : (s.woken h id rest a).awaiters.lookup id =
        some { a with phase := .woken, claimed := true } := AList.lookup_insert _
    rw [hlook]
    rfl
  have hnil : ∀ (h' : Half) (l : List ℕ), l.Sublist (s.parked h') → id ∉ l →
      l.filter (fun k => ((s.woken h id rest a).awaiters.lookup k).map Awaiter.phase =
        some .woken) = [] := by
    intro h' l hsub hnot
    rw [List.filter_eq_nil_iff]
    intro k hk hwoken
    have hmem : k ∈ s.waiting h' := List.mem_append_left _ (hsub.subset hk)
    obtain ⟨b, hb, hw⟩ := hl.waits h' k hmem
    rw [hsame k (fun he => hnot (he ▸ hk)), hb] at hwoken
    simp [hw.phase] at hwoken
  have hnd : id ∉ rest := by
    have hnd := (List.nodup_append.1 (hl.nodup h)).1
    rw [hp] at hnd
    exact (List.nodup_cons.1 hnd).1
  have hhead : (s.parked h).filter (fun k =>
      ((s.woken h id rest a).awaiters.lookup k).map Awaiter.phase = some .woken) = [id] := by
    rw [hp, List.filter_cons_of_pos (by simpa using hself),
      hnil h rest (by rw [hp]; exact List.sublist_cons_self _ _) hnd]
  have hother : ∀ h', h' ≠ h → (s.parked h').filter (fun k =>
      ((s.woken h id rest a).awaiters.lookup k).map Awaiter.phase = some .woken) = [] := by
    intro h' hh
    refine hnil h' _ (List.Sublist.refl _) (fun hmem => ?_)
    obtain ⟨b, hb, hw⟩ := hl.waits h' id (List.mem_append_left _ hmem)
    obtain ⟨c, hc, hw'⟩ := hl.waits h id (by simp [waiting_cons_of_parked hp])
    rw [hb] at hc
    cases hc
    exact hh (hw.half.symm.trans hw'.half)
  rw [State.resumedBy, List.filter_append]
  cases h with
  | read => rw [hhead, hother .write (by simp), List.append_nil]
  | write => rw [hhead, hother .read (by simp), List.nil_append]

/-- A loop whose woken tasks are only scheduled wakes the awaiters in the order of the list, until
there is nobody to wake or nothing to claim. -/
theorem scheduled (hi : Inv limit s) (hopen : s.closed = false) (h : Half) :
    ∃ t ids, s.wakeAwaiters h = .ok t ∧
      Scheduled s.frames.length t ids (s.wakeFirst h (s.toWake h)) ∧
      s.resumedBy t ++ ids = (s.parked h).take (s.toWake h) := by
  induction hn : s.toWake h generalizing s with
  | zero =>
    refine ⟨s, [], ?_, .done rfl, ?_⟩
    · have hnil : s.unclaimedCount h = 0 ∨ s.parked h = [] := by
        unfold State.toWake at hn
        split_ifs at hn
        · exact Or.inr (List.eq_nil_of_length_eq_zero hn)
        · rcases Nat.min_eq_zero_iff.1 hn with hlen | hu
          · exact Or.inr (List.eq_nil_of_length_eq_zero hlen)
          · exact Or.inl hu
      unfold State.wakeAwaiters
      rcases hnil with hu | hnil
      · rw [if_pos hu]
      · rw [hnil]
        split_ifs <;> rfl
    · rw [resumedBy_self hi.linked]
      rfl
  | succ n ih =>
    obtain ⟨⟨id, rest, hp⟩, hu⟩ := hi.exists_of_toWake hopen hn
    obtain ⟨hi', hw, hn'⟩ := hi.toWake_wakeOne hopen hn
    obtain ⟨a, ha, hwaits, heq, -⟩ := hi.wakeOne hp hu
    obtain ⟨t, ids, hs, hrest, hids⟩ := ih hi' (hw.closed.trans hopen) hn'
    have hwake : s.wakeAwaiters h = .ok (s.woken h id rest a) := by
      simp only [State.wakeAwaiters, if_neg hu, hp, ha, hwaits.unclaimed, Bool.false_eq_true,
        if_false]
      rfl
    -- The handle returns at once, and the loop finds the state without its frame.
    have hframe : { s.woken h id rest a with frames := s.frames } = Channel.wakeOne h s := by
      rw [heq]
      rfl
    have hresume : (s.woken h id rest a).resumeReturns = .ok t := by
      show { s.woken h id rest a with frames := s.frames }.wakeAwaiters h = .ok t
      rw [hframe]
      exact hs
    have hby : (s.woken h id rest a).resumedBy t = (Channel.wakeOne h s).resumedBy t := by
      rw [heq]
      rfl
    have hdepth : (Channel.wakeOne h s).frames.length = s.frames.length := by rw [heq]; rfl
    rw [hdepth] at hrest
    refine ⟨_, _, hwake, .next (Nat.lt_succ_self _) hresume hrest, ?_⟩
    rw [resumedBy_woken hi.linked hp, hby, hids, hw.parked, hp]
    rfl

/-! ### Moving objects -/

/-- How many awaiters of half `h` are woken when `n` objects are moved past it. -/
def State.wokenBy (s : State T) (h : Half) (n : ℕ) : ℕ :=
  if n = 0 then 0
  else if h = .write ∧ s.bounded = false then (s.parked h).length
  else min (s.parked h).length (s.unclaimedCount h + n)

/-- `buf` is the buffer of `s` with `n` objects more (less), which the readers (the writers) look
at. -/
def Moved (s : State T) (n : ℕ) (buf : Queue T) : Half → Prop
  | .read => buf.size = s.buf.size + n
  | .write => buf.size + n = s.buf.size ∧ buf.capacity = s.buf.capacity

/-- The other half gains what has been moved. -/
theorem toWake_hold (hi : Inv limit s) (hopen : s.closed = false) {buf : Queue T}
    {log : List (Event T)} (hi' : Inv limit (s.hold buf log)) {h : Half} {n : ℕ} (hn : n ≠ 0)
    (hm : Moved s n buf h) : (s.hold buf log).toWake h = s.wokenBy h n := by
  have hcount := hi.unclaimedCount_eq hopen h
  have hcount' := hi'.unclaimedCount_eq (show (s.hold buf log).closed = false from hopen) h
  have hparked : (s.hold buf log).parked = s.parked := rfl
  have hbounded : (s.hold buf log).bounded = s.bounded := rfl
  have hclaims : (s.hold buf log).claims = s.claims := rfl
  have hbuf : (s.hold buf log).buf = buf := rfl
  rw [hbounded, hclaims, hbuf] at hcount'
  unfold State.toWake State.wokenBy
  rw [if_neg hn, hparked, hbounded]
  split_ifs with hcase
  · rfl
  · cases h with
    | read =>
      obtain ⟨-, hc⟩ := hcount.resolve_right (by simp)
      obtain ⟨-, hc'⟩ := hcount'.resolve_right (by simp)
      have hm' : buf.size = s.buf.size + n := hm
      congr 1
      omega
    | write =>
      obtain ⟨hm₁, hm₂⟩ : buf.size + n = s.buf.size ∧ buf.capacity = s.buf.capacity := hm
      have hb : s.bounded = true := by simpa using hcase
      obtain ⟨-, -, hc⟩ := (hcount.resolve_left (by simp)).resolve_left (by simp [hb])
      obtain ⟨-, -, hc'⟩ := (hcount'.resolve_left (by simp)).resolve_left (by simp [hb])
      congr 1
      omega

/-- A call that moves `n` objects and then runs a loop. -/
theorem calls_of_moved (hi : Inv limit s) (hopen : s.closed = false) {buf : Queue T}
    {log : List (Event T)} (hi' : Inv limit (s.hold buf log)) {h : Half} {n : ℕ} (hn : n ≠ 0)
    (hm : Moved s n buf h) {act : Action T}
    (hs : step s act = (s.hold buf log).wakeAwaiters h) :
    Calls s act ((s.parked h).take (s.wokenBy h n))
      ((s.wakeFirst h (s.wokenBy h n)).hold buf log) := by
  obtain ⟨t, ids, ht, hrest, hids⟩ := scheduled hi' (h := h) hopen
  rw [toWake_hold hi hopen hi' hn hm, wakeFirst_hold] at hrest
  rw [toWake_hold hi hopen hi' hn hm] at hids
  exact ⟨t, ids, hs.trans ht, hrest, hids.symm⟩

/-- A call that moves nothing wakes nobody. -/
theorem calls_of_refused (hi : Inv limit s) (h : Half) {act : Action T} {e : Event T}
    (hs : step s act = .ok (s.record e)) :
    Calls s act ((s.parked h).take (s.wokenBy h 0))
      ((s.wakeFirst h (s.wokenBy h 0)).hold s.buf (s.log ++ [e])) := by
  refine ⟨s.record e, [], hs, .done rfl, ?_⟩
  have hby : s.resumedBy (s.record e) = s.resumedBy s := rfl
  rw [hby, resumedBy_self hi.linked]
  rfl

/-- What is left when an object has been moved and the other half has been served. -/
theorem Inv.advance (hi : Inv limit s) (hopen : s.closed = false) {buf : Queue T}
    {log : List (Event T)} (hi' : Inv limit (s.hold buf log)) {h : Half} (hm : Moved s 1 buf h)
    {t : State T} (ht : t = (s.wakeFirst h (s.wokenBy h 1)).hold buf log) :
    Inv limit t ∧ t.closed = false ∧ t.bounded = s.bounded ∧ t.buf = buf ∧
      t.parked h = (s.parked h).drop (s.wokenBy h 1) ∧
      t.claims = Function.update s.claims h (s.claims h + s.wokenBy h 1) := by
  have htoWake := toWake_hold hi hopen hi' one_ne_zero hm
  obtain ⟨hinv, hp, hc, hb, hcl, hbuf⟩ :=
    hi'.wakeFirst (s := s.hold buf log) hopen (k := s.wokenBy h 1) htoWake.ge
  rw [wakeFirst_hold, ← ht] at hinv hp hc hb hcl hbuf
  exact ⟨hinv, hcl, hb, hbuf, hp, hc⟩

/-- The awaiters woken one object after the other. -/
theorem wakeFirst_advance (s : State T) (h : Half) (m n : ℕ) (buf buf' : Queue T)
    (log log' : List (Event T)) :
    (((s.wakeFirst h m).hold buf log).wakeFirst h n).hold buf' log' =
      (s.wakeFirst h (m + n)).hold buf' log' := by
  rw [wakeFirst_hold, wakeFirst_add]
  rfl

/-- One object and then `n` more wake as many as all of them at once. -/
theorem wokenBy_succ (hi : Inv limit s) (hopen : s.closed = false) {h : Half}
    (hit : Inv limit t) (hclosed : t.closed = false) (hb : t.bounded = s.bounded)
    (hm : Moved s 1 t.buf h) (hp : t.parked h = (s.parked h).drop (s.wokenBy h 1))
    (hc : t.claims = Function.update s.claims h (s.claims h + s.wokenBy h 1)) (n : ℕ) :
    s.wokenBy h 1 + t.wokenBy h n = s.wokenBy h (n + 1) := by
  have hlen := congrArg List.length hp
  rw [List.length_drop] at hlen
  have hcount := hi.unclaimedCount_eq hopen h
  have hcount' := hit.unclaimedCount_eq hclosed h
  rw [hc, Function.update_self, hb] at hcount'
  generalize hk : s.wokenBy h 1 = k at hlen hcount' ⊢
  unfold State.wokenBy at hk ⊢
  rw [if_neg one_ne_zero] at hk
  rw [if_neg (Nat.succ_ne_zero n), hb, hlen]
  by_cases hcase : h = .write ∧ s.bounded = false
  · simp only [if_pos hcase] at hk ⊢
    split_ifs <;> omega
  · simp only [if_neg hcase] at hk ⊢
    have hgain : t.unclaimedCount h + k = s.unclaimedCount h + 1 := by
      cases h with
      | read =>
        obtain ⟨-, hc₀⟩ := hcount.resolve_right (by simp)
        obtain ⟨-, hc₁⟩ := hcount'.resolve_right (by simp)
        have hm' : t.buf.size = s.buf.size + 1 := hm
        omega
      | write =>
        obtain ⟨hm₁, hm₂⟩ : t.buf.size + 1 = s.buf.size ∧ t.buf.capacity = s.buf.capacity := hm
        have hb' : s.bounded = true := by simpa using hcase
        obtain ⟨-, -, hc₀⟩ := (hcount.resolve_left (by simp)).resolve_left (by simp [hb'])
        obtain ⟨-, -, hc₁⟩ := (hcount'.resolve_left (by simp)).resolve_left (by simp [hb'])
        omega
    split_ifs <;> omega

/-! ### Sending -/

theorem wakeAwaiters_record (s : State T) (h : Half) (e : Event T) :
    (s.record e).wakeAwaiters h = (s.wakeAwaiters h).map (State.record · e) := by
  have hunclaimed : (s.record e).unclaimedCount h = s.unclaimedCount h := by cases h <;> rfl
  have hparked : (s.record e).parked h = s.parked h := rfl
  have hlookup : ∀ id, (s.record e).awaiters.lookup id = s.awaiters.lookup id := fun _ => rfl
  unfold State.wakeAwaiters
  rw [hunclaimed, hparked]
  by_cases hu : s.unclaimedCount h = 0
  · rw [if_pos hu, if_pos hu]
    rfl
  · rw [if_neg hu, if_neg hu]
    cases s.parked h with
    | nil => rfl
    | cons id rest =>
      simp only [hlookup]
      cases s.awaiters.lookup id with
      | none => rfl
      | some a =>
        show (if a.claimed then _ else _) = Except.map _ (if a.claimed then _ else _)
        cases a.claimed <;> rfl

/-- A send without a claim owes nothing. -/
theorem wakeAwaiters_put_zero (s : State T) (buf : Queue T) (e : Event T) :
    ((s.put 0 buf).wakeAwaiters .read).map (State.record · e) =
      (s.hold buf (s.log ++ [e])).wakeAwaiters .read := by
  have hclaims : (s.settle .write 0).claims = s.claims := Function.update_eq_self _ _
  have hput : (s.put 0 buf).record e = s.hold buf (s.log ++ [e]) := by
    simp only [State.put, State.record, State.hold, hclaims]
    rfl
  rw [← wakeAwaiters_record, hput]

/-- A receive without a claim owes nothing. -/
theorem wakeAwaiters_taken_zero (s : State T) (buf : Queue T) (e : Event T) :
    ((s.taken 0 buf).wakeAwaiters .write).map (State.record · e) =
      (s.hold buf (s.log ++ [e])).wakeAwaiters .write := by
  have hclaims : ({ s with buf := buf }.settle .read 0).claims = s.claims :=
    Function.update_eq_self _ _
  have htaken : (s.taken 0 buf).record e = s.hold buf (s.log ++ [e]) := by
    simp only [State.taken, State.record, State.hold, hclaims]
    rfl
  rw [← wakeAwaiters_record, htaken]

/-- Where there is space the assertion of a send holds. -/
theorem Inv.notClosedNotFull (hi : Inv limit s) (hopen : s.closed = false) (hs : s.space ≠ 0) :
    (s.closed || s.reallyFull) = false := by
  cases hb : s.bounded with
  | false => simp [State.reallyFull, hopen, hb]
  | true =>
    have hle := hi.counted.claims_write_le hb
    rw [space_of_bounded hopen hb hle] at hs
    have hne : s.buf.capacity ≠ s.buf.size := by omega
    simp [State.reallyFull, hopen, hne]

theorem trySend_one (hi : Inv limit s) (hopen : s.closed = false) (hs : s.space ≠ 0) (x : T) :
    step s (.trySend (.one x)) = (s.hold (s.buf.pushBack x)
      (s.log ++ [.sent none (.one x) (.one true)])).wakeAwaiters .read := by
  have hone : s.writeOne 0 x =
      ((s.put 0 (s.buf.pushBack x)).wakeAwaiters .read).map (fun t => (true, t)) := by
    rw [State.writeOne, if_neg (fun h => hs h.2), hi.notClosedNotFull hopen hs]
    rfl
  simp only [step, State.transfer, State.writeTransfer, if_neg (Nat.not_lt_zero _), hone]
  rw [← wakeAwaiters_put_zero]
  cases (s.put 0 (s.buf.pushBack x)).wakeAwaiters .read <;> rfl

theorem trySend_one_full (hs : s.space = 0) (x : T) :
    step s (.trySend (.one x)) = .ok (s.record (.sent none (.one x) (.one false))) := by
  have hone : s.writeOne 0 x = .ok (false, s) := by rw [State.writeOne, if_pos ⟨rfl, hs⟩]
  simp only [step, State.transfer, State.writeTransfer, if_neg (Nat.not_lt_zero _), hone]
  rfl

/-- How many of `k` objects there is space for. -/
def State.fits (s : State T) (k : ℕ) : ℕ := if s.bounded then min k s.space else k

theorem fits_le (s : State T) (k : ℕ) : s.fits k ≤ k ∧ (s.bounded = true → s.fits k ≤ s.space) := by
  unfold State.fits
  cases s.bounded <;> simp

/-- An open channel has no space only if it is bounded. -/
theorem fits_eq_zero (hopen : s.closed = false) (k : ℕ) (hs : s.space = 0) :
    s.fits k = 0 := by
  cases hb : s.bounded with
  | false =>
    rw [space_of_unbounded hopen hb] at hs
    norm_num [sizeMax] at hs
  | true =>
    have hle := (fits_le s k).2 hb
    omega

/-- What there is space for fits. -/
theorem Inv.fits (hi : Inv limit s) (hopen : s.closed = false) {k : ℕ} (hn : s.fits k ≠ 0) :
    k ≠ 0 ∧ s.space ≠ 0 ∧ (s.bounded = true → s.buf.size + s.fits k ≤ s.buf.capacity) := by
  obtain ⟨hle, hspace⟩ := fits_le s k
  refine ⟨by omega, fun hs => ?_, fun hb => ?_⟩
  · exact hn (fits_eq_zero hopen k hs)
  · have hc := hi.counted.claims_write_le hb
    have hle' := hspace hb
    rw [space_of_bounded hopen hb hc] at hle'
    omega

/-- A count of objects in memory is a `size_t`. -/
theorem min_avail {k : ℕ} (hk : s.bounded = false → k ≤ sizeMax) :
    min k (s.avail 0) = s.fits k := by
  unfold State.avail State.fits
  cases hb : s.bounded with
  | false => simpa using hk hb
  | true => simp

/-- A bulk send, by whichever overload. -/
theorem trySend_bulk (hi : Inv limit s) (hopen : s.closed = false) {xs : List T}
    (hxs : s.bounded = false → xs.length ≤ sizeMax) (hn : s.fits xs.length ≠ 0) (ra : Bool) :
    ∃ buf, buf.contents = s.buf.contents ++ xs.take (s.fits xs.length) ∧
      (s.buf.size + s.fits xs.length ≤ s.buf.capacity → buf.capacity = s.buf.capacity) ∧
      step s (.trySend (.iter ra xs)) =
        (s.hold buf (s.log ++ [.sent none (.iter ra xs) (.iter (s.fits xs.length))])).wakeAwaiters
          .read ∧
      step s (.trySend (.range ra xs)) =
        (s.hold buf (s.log ++ [.sent none (.range ra xs) (.range (s.fits xs.length))])).wakeAwaiters
          .read := by
  obtain ⟨hlen, hspace, -⟩ := hi.fits hopen hn
  have hmin := min_avail (s := s) hxs
  obtain ⟨hm, hcont, hcap⟩ := addRange_spec s.buf (s.avail 0) ra xs
  rcases hr : addRange s.buf (s.avail 0) ra xs with ⟨buf, m⟩
  simp only [hr, hmin] at hm hcont hcap
  have hbulk : s.writeBulk 0 ra xs =
      ((s.put 0 buf).wakeAwaiters .read).map (fun t => (m, t)) := by
    have hne : xs.isEmpty = false := by
      cases xs with
      | nil => exact absurd rfl hlen
      | cons x xs => rfl
    rw [State.writeBulk, hne, if_neg (by simp), if_neg (by omega), hi.notClosedNotFull hopen hspace,
      hr]
    rfl
  refine ⟨buf, hcont, hcap, ?_, ?_⟩
  · simp only [step, State.transfer, State.writeTransfer, if_neg (Nat.not_lt_zero _), hbulk]
    rw [← wakeAwaiters_put_zero, ← hm]
    cases (s.put 0 buf).wakeAwaiters .read <;> rfl
  · simp only [step, State.transfer, State.writeTransfer, if_neg (Nat.not_lt_zero _), hbulk]
    rw [← wakeAwaiters_put_zero, ← hm]
    cases (s.put 0 buf).wakeAwaiters .read <;> rfl

theorem trySend_bulk_none {xs : List T} (hxs : s.bounded = false → xs.length ≤ sizeMax)
    (hn : s.fits xs.length = 0) (ra : Bool) :
    step s (.trySend (.iter ra xs)) = .ok (s.record (.sent none (.iter ra xs) (.iter 0))) ∧
      step s (.trySend (.range ra xs)) =
        .ok (s.record (.sent none (.range ra xs) (.range 0))) := by
  have hmin := min_avail (s := s) hxs
  have hbulk : s.writeBulk 0 ra xs = .ok (0, s) := by
    unfold State.writeBulk
    by_cases hnil : xs.isEmpty = true
    · rw [if_pos hnil]
    · have hlen : xs.length ≠ 0 := fun h => hnil (by simpa using h)
      rw [if_neg hnil, if_pos (by omega)]
  constructor <;>
    simp only [step, State.transfer, State.writeTransfer, if_neg (Nat.not_lt_zero _), hbulk] <;> rfl

/-- A send keeps the invariant also before the loop. -/
theorem Inv.holdPut (hi : Inv limit s) (hopen : s.closed = false) {buf : Queue T} {k : ℕ}
    (hk : s.bounded = true → k ≤ s.space) (hsize : buf.size = s.buf.size + k)
    (hcap : s.buf.size + k ≤ s.buf.capacity → buf.capacity = s.buf.capacity)
    (log : List (Event T)) : Inv limit (s.hold buf log) := by
  have hc : Counted (owes .write 0) s := by simpa [owes] using hi.counted
  have hclaims : (s.put 0 buf).claims = s.claims := Function.update_eq_self _ _
  have hput := Inv.put hi.linked hc hi.limit_eq (Nat.zero_le _) hopen
    (fun hb => (hk hb).trans_eq (Nat.zero_add _).symm) hsize hcap
  exact hput.relink (fun _ => rfl) rfl rfl hclaims.symm rfl rfl

/-- The scalar loop sends what there is space for. -/
theorem sends (hi : Inv limit s) (hopen : s.closed = false) (xs : List T) :
    ∃ buf log, Sends s xs (s.fits xs.length)
        ((s.parked .read).take (s.wokenBy .read (s.fits xs.length)))
        ((s.wakeFirst .read (s.wokenBy .read (s.fits xs.length))).hold buf log) ∧
      buf.contents = s.buf.contents ++ xs.take (s.fits xs.length) ∧
      (s.bounded = true → buf.capacity = s.buf.capacity) := by
  induction xs generalizing s with
  | nil =>
    have h₀ : s.fits 0 = 0 := Nat.le_zero.1 (fits_le s 0).1
    refine ⟨s.buf, s.log, ?_, ?_, fun _ => rfl⟩
    · rw [List.length_nil, h₀]
      exact .nil
    · rw [List.length_nil, h₀]
      simp
  | cons x xs ih =>
    by_cases hs : s.space = 0
    · have h₀ : s.fits (x :: xs).length = 0 := fits_eq_zero hopen _ hs
      have hcall := calls_of_refused hi .read (trySend_one_full hs x)
      rw [h₀]
      exact ⟨_, _, .refused hcall rfl, by simp, fun _ => rfl⟩
    · have hstep := trySend_one hi hopen hs x
      have hsize : (s.buf.pushBack x).size = s.buf.size + 1 := by simp [Queue.size_eq]
      have hi' := hi.holdPut hopen (k := 1) (fun _ => Nat.pos_iff_ne_zero.2 hs) hsize
        (fun hle => Queue.capacity_pushBack hle x)
        (s.log ++ [.sent none (.one x) (.one true)])
      have hm : Moved s 1 (s.buf.pushBack x) .read := hsize
      have hcall := calls_of_moved hi hopen hi' one_ne_zero hm hstep
      obtain ⟨t, ht⟩ : ∃ t, t = (s.wakeFirst .read (s.wokenBy .read 1)).hold (s.buf.pushBack x)
        (s.log ++ [.sent none (.one x) (.one true)]) := ⟨_, rfl⟩
      obtain ⟨hit, hclosed, hb, hbuf, hp, hc⟩ := hi.advance hopen hi' hm ht
      obtain ⟨buf, log, hsends, hcont, hcap⟩ := ih hit hclosed
      have hcap₁ : s.bounded = true → (s.buf.pushBack x).capacity = s.buf.capacity := by
        intro hbd
        have hle := hi.counted.claims_write_le hbd
        rw [space_of_bounded hopen hbd hle] at hs
        exact Queue.capacity_pushBack (by omega) x
      have hfits : t.fits xs.length + 1 = s.fits (x :: xs).length := by
        have hclaims : t.claims .write = s.claims .write := by
          rw [hc]
          exact Function.update_of_ne (by simp) _ _
        rw [State.fits, State.fits, hb, List.length_cons]
        cases hbd : s.bounded with
        | false => rfl
        | true =>
          obtain ⟨-, -, h₀⟩ :=
            ((hi.unclaimedCount_eq hopen .write).resolve_left (by simp)).resolve_left (by simp [hbd])
          obtain ⟨-, -, h₁⟩ := ((hit.unclaimedCount_eq hclosed .write).resolve_left
            (by simp)).resolve_left (by simp [hb, hbd])
          have hcap' := hcap₁ hbd
          rw [hclaims, hbuf] at h₁
          simp only [State.unclaimedCount] at h₀ h₁
          simp only [if_true]
          omega
      have hwoken := wokenBy_succ hi hopen hit hclosed hb (hbuf ▸ hm) hp hc (t.fits xs.length)
      rw [← hfits, ← hwoken]
      refine ⟨buf, log, ?_, ?_, fun hbd => ?_⟩
      · have hlog : t.log = s.log ++ [.sent none (.one x) (.one true)] := by rw [ht]; rfl
        have hall := Sends.sent (ht ▸ hcall) hlog hsends
        rwa [hp, ← List.take_add, ht, wakeFirst_advance, ← ht] at hall
      · rw [hcont, hbuf, Queue.contents_pushBack, List.take_succ_cons, List.append_assoc]
        rfl
      · rw [hcap (hb.trans hbd), hbuf, hcap₁ hbd]

/-! ### Receiving -/

theorem tryReceive_one (hi : Inv limit s) (hs : s.size ≠ 0) :
    ∃ x buf, s.buf.contents = x :: buf.contents ∧ buf.capacity = s.buf.capacity ∧
      step s (.tryReceive .one) = (s.hold buf
        (s.log ++ [.received none (.one (some x))])).wakeAwaiters .write := by
  have hle := hi.counted.claims_read_le
  rw [size_of_le hle] at hs
  have hb : s.buf.size ≠ 0 := by omega
  refine ⟨(s.buf.popFront hb).1, (s.buf.popFront hb).2, s.buf.contents_eq_popFront hb,
    s.buf.capacity_popFront hb, ?_⟩
  have hone : s.readOne 0 = ((s.taken 0 (s.buf.popFront hb).2).wakeAwaiters .write).map
      (fun t => (some (s.buf.popFront hb).1, t)) := by
    rw [State.readOne, if_neg (by rw [size_of_le hle]; omega), dif_neg hb]
  simp only [step, State.transfer, State.readTransfer, if_neg (Nat.not_lt_zero _), hone]
  rw [← wakeAwaiters_taken_zero]
  cases (s.taken 0 (s.buf.popFront hb).2).wakeAwaiters .write <;> rfl

theorem tryReceive_one_empty (hs : s.size = 0) :
    step s (.tryReceive .one) = .ok (s.record (.received none (.one none))) := by
  have hone : s.readOne 0 = .ok (none, s) := by rw [State.readOne, if_pos ⟨rfl, hs⟩]
  simp only [step, State.transfer, State.readTransfer, if_neg (Nat.not_lt_zero _), hone]
  rfl

/-- The number of objects a bulk receive takes, by whichever overload. -/
theorem readTransfer_bulk (s : State T) (m : ℕ) :
    s.readTransfer 0 (.into m) = (s.readBulk 0 (min m s.size)).map (Prod.map .into id) ∧
      s.readTransfer 0 (.range true m) = (s.readBulk 0 (min m s.size)).map (Prod.map .range id) := by
  constructor
  · rw [State.readTransfer.eq_def, if_neg (Nat.not_lt_zero _), Nat.zero_add]
  · rw [State.readTransfer.eq_def, if_neg (Nat.not_lt_zero _), Nat.zero_add, Nat.min_comm]
    rfl

/-- A bulk receive, by whichever overload. -/
theorem tryReceive_bulk (hi : Inv limit s) {m : ℕ} (hn : min m s.size ≠ 0) :
    ∃ out buf, s.buf.contents = out ++ buf.contents ∧ out.length = min m s.size ∧
      buf.capacity = s.buf.capacity ∧
      step s (.tryReceive (.into m)) =
        (s.hold buf (s.log ++ [.received none (.into out)])).wakeAwaiters .write ∧
      step s (.tryReceive (.range true m)) =
        (s.hold buf (s.log ++ [.received none (.range out)])).wakeAwaiters .write := by
  have hle := hi.counted.claims_read_le
  have hsize := size_of_le hle
  have hb : min m s.size ≤ s.buf.size := by omega
  obtain ⟨hinto, hrange⟩ := readTransfer_bulk s m
  refine ⟨(s.buf.popFrontTo _ hb).1, (s.buf.popFrontTo _ hb).2, s.buf.contents_eq_popFrontTo hb,
    s.buf.length_popFrontTo hb, s.buf.capacity_popFrontTo hb, ?_, ?_⟩
  all_goals
    have hbulk : s.readBulk 0 (min m s.size) =
        ((s.taken 0 (s.buf.popFrontTo _ hb).2).wakeAwaiters .write).map
          (fun t => ((s.buf.popFrontTo _ hb).1, t)) := by
      rw [State.readBulk, if_neg hn, if_neg (by omega), dif_pos hb]
    simp only [step, State.transfer, hinto, hrange, hbulk]
    rw [← wakeAwaiters_taken_zero]
    cases (s.taken 0 (s.buf.popFrontTo _ hb).2).wakeAwaiters .write <;> rfl

theorem tryReceive_bulk_none {m : ℕ} (hn : min m s.size = 0) :
    step s (.tryReceive (.into m)) = .ok (s.record (.received none (.into []))) ∧
      step s (.tryReceive (.range true m)) =
        .ok (s.record (.received none (.range []))) := by
  have hbulk : s.readBulk 0 (min m s.size) = .ok ([], s) := by rw [State.readBulk, if_pos hn]
  obtain ⟨hinto, hrange⟩ := readTransfer_bulk s m
  constructor <;> simp only [step, State.transfer, hinto, hrange, hbulk] <;> rfl

/-- A receive keeps the invariant also before the loop. -/
theorem Inv.holdTaken (hi : Inv limit s) {buf : Queue T} {k : ℕ} (hk : k ≤ s.size)
    (hsize : s.buf.size = k + buf.size) (hcap : buf.capacity = s.buf.capacity)
    (log : List (Event T)) : Inv limit (s.hold buf log) := by
  have hc : Counted (owes .read 0) s := by simpa [owes] using hi.counted
  have hclaims : (s.taken 0 buf).claims = s.claims := Function.update_eq_self _ _
  have htaken := Inv.taken hi.linked hc hi.limit_eq (Nat.zero_le _)
    (hk.trans_eq (Nat.zero_add _).symm) hsize hcap
  exact htaken.relink (fun _ => rfl) rfl rfl hclaims.symm rfl rfl

/-- The scalar loop takes what there is. -/
theorem receives (hi : Inv limit s) (hopen : s.closed = false) (m : ℕ) :
    ∃ out buf log, Receives s m out ((s.parked .write).take (s.wokenBy .write (min m s.size)))
        ((s.wakeFirst .write (s.wokenBy .write (min m s.size))).hold buf log) ∧
      s.buf.contents = out ++ buf.contents ∧ out.length = min m s.size ∧
      buf.capacity = s.buf.capacity := by
  induction m generalizing s with
  | zero =>
    rw [Nat.zero_min]
    exact ⟨[], s.buf, s.log, .enough, rfl, rfl, rfl⟩
  | succ m ih =>
    by_cases hs : s.size = 0
    · have hcall := calls_of_refused hi .write (tryReceive_one_empty hs)
      rw [hs, Nat.min_zero]
      exact ⟨[], s.buf, _, .refused hcall rfl, rfl, rfl, rfl⟩
    · obtain ⟨x, buf₁, hcont₁, hcap₁, hstep⟩ := tryReceive_one hi hs
      have hsize : s.buf.size = 1 + buf₁.size := by
        rw [Queue.size_eq, Queue.size_eq, hcont₁, List.length_cons, Nat.add_comm]
      have hi' := hi.holdTaken (k := 1) (Nat.pos_iff_ne_zero.2 hs) hsize hcap₁
        (s.log ++ [.received none (.one (some x))])
      have hm : Moved s 1 buf₁ .write := ⟨(hsize.trans (Nat.add_comm _ _)).symm, hcap₁⟩
      have hcall := calls_of_moved hi hopen hi' one_ne_zero hm hstep
      obtain ⟨t, ht⟩ : ∃ t, t = (s.wakeFirst .write (s.wokenBy .write 1)).hold buf₁
        (s.log ++ [.received none (.one (some x))]) := ⟨_, rfl⟩
      obtain ⟨hit, hclosed, hb, hbuf, hp, hc⟩ := hi.advance hopen hi' hm ht
      obtain ⟨out, buf, log, hreceives, hcont, hlen, hcap⟩ := ih hit hclosed
      have hless : min m t.size + 1 = min (m + 1) s.size := by
        have hclaims : t.claims .read = s.claims .read := by
          rw [hc]
          exact Function.update_of_ne (by simp) _ _
        rw [size_of_le hit.counted.claims_read_le, size_of_le hi.counted.claims_read_le, hclaims,
          hbuf]
        have hle := hi.counted.claims_read_le
        rw [size_of_le hle] at hs
        omega
      have hwoken := wokenBy_succ hi hopen hit hclosed hb (hbuf ▸ hm) hp hc (min m t.size)
      rw [← hless, ← hwoken]
      refine ⟨x :: out, buf, log, ?_, ?_, ?_, ?_⟩
      · have hlog : t.log = s.log ++ [.received none (.one (some x))] := by rw [ht]; rfl
        have hall := Receives.received (ht ▸ hcall) hlog hreceives
        rwa [hp, ← List.take_add, ht, wakeFirst_advance, ← ht] at hall
      · rw [hcont₁, ← hbuf, hcont]
        rfl
      · rw [List.length_cons, hlen]
      · rw [hcap, hbuf, hcap₁]

/-! ### The two ways agree -/

theorem bounded_wakeFirst (s : State T) (h : Half) (n : ℕ) :
    (s.wakeFirst h n).bounded = s.bounded := by
  induction n generalizing s with
  | zero => rfl
  | succ n ih =>
    have hone : (wakeOne h s).bounded = s.bounded := by
      unfold wakeOne
      split
      · rfl
      · split <;> rfl
    exact (ih (wakeOne h s)).trans hone

theorem same_hold {h : Half} {k : ℕ} {buf buf' : Queue T} (log log' : List (Event T))
    (hcont : buf.contents = buf'.contents)
    (hcap : s.bounded = true → buf.capacity = buf'.capacity) :
    Same ((s.wakeFirst h k).hold buf log) ((s.wakeFirst h k).hold buf' log') :=
  ⟨rfl, rfl, hcont, fun hb => hcap ((bounded_wakeFirst s h k).symm.trans hb), rfl, rfl, rfl, rfl, rfl⟩

/-- A bulk send and the scalar loop. -/
theorem bulk_send_eq (hi : Inv limit s) (hopen : s.closed = false) (ra : Bool) (xs : List T)
    (hxs : s.bounded = false → xs.length ≤ sizeMax) :
    ∃ n ids t t₁ t₂, Sends s xs n ids t ∧
      Calls s (.trySend (.iter ra xs)) ids t₁ ∧
      t₁.log = s.log ++ [.sent none (.iter ra xs) (.iter n)] ∧ Same t t₁ ∧
      Calls s (.trySend (.range ra xs)) ids t₂ ∧
      t₂.log = s.log ++ [.sent none (.range ra xs) (.range n)] ∧ Same t t₂ := by
  obtain ⟨buf, log, hsends, hcont, hcap⟩ := sends hi hopen xs
  by_cases hn : s.fits xs.length = 0
  · obtain ⟨hiter, hrange⟩ := trySend_bulk_none hxs hn ra
    rw [hn] at hsends hcont
    have hcont' : buf.contents = s.buf.contents := hcont.trans (by simp)
    exact ⟨_, _, _, _, _, hsends, calls_of_refused hi .read hiter, rfl, same_hold _ _ hcont' hcap,
      calls_of_refused hi .read hrange, rfl, same_hold _ _ hcont' hcap⟩
  · obtain ⟨buf', hcont', hcap', hiter, hrange⟩ := trySend_bulk hi hopen hxs hn ra
    obtain ⟨-, -, hroom⟩ := hi.fits hopen hn
    have hsize : buf'.size = s.buf.size + s.fits xs.length := by
      have hle := (fits_le s xs.length).1
      rw [Queue.size_eq, Queue.size_eq, hcont', List.length_append, List.length_take]
      omega
    have hinv := hi.holdPut hopen (fits_le s xs.length).2 hsize hcap'
    have hsame : buf.contents = buf'.contents := hcont.trans hcont'.symm
    have hsame' : s.bounded = true → buf.capacity = buf'.capacity :=
      fun hb => (hcap hb).trans (hcap' (hroom hb)).symm
    have hm : Moved s (s.fits xs.length) buf' .read := hsize
    exact ⟨_, _, _, _, _, hsends, calls_of_moved hi hopen (hinv _) hn hm hiter, rfl,
      same_hold _ _ hsame hsame', calls_of_moved hi hopen (hinv _) hn hm hrange, rfl,
      same_hold _ _ hsame hsame'⟩

/-- A bulk receive and the scalar loop. -/
theorem bulk_receive_eq (hi : Inv limit s) (hopen : s.closed = false) (n : ℕ) :
    ∃ out ids t t₁ t₂, Receives s n out ids t ∧
      Calls s (.tryReceive (.into n)) ids t₁ ∧
      t₁.log = s.log ++ [.received none (.into out)] ∧ Same t t₁ ∧
      Calls s (.tryReceive (.range true n)) ids t₂ ∧
      t₂.log = s.log ++ [.received none (.range out)] ∧ Same t t₂ := by
  obtain ⟨out, buf, log, hreceives, hcont, hlen, hcap⟩ := receives hi hopen n
  by_cases hn : min n s.size = 0
  · obtain ⟨hinto, hrange⟩ := tryReceive_bulk_none hn
    rw [hn] at hreceives hlen
    obtain rfl := List.eq_nil_of_length_eq_zero hlen
    exact ⟨_, _, _, _, _, hreceives, calls_of_refused hi .write hinto, rfl,
      same_hold _ _ hcont.symm fun _ => hcap, calls_of_refused hi .write hrange, rfl,
      same_hold _ _ hcont.symm fun _ => hcap⟩
  · obtain ⟨out', buf', hcont', hlen', hcap', hinto, hrange⟩ := tryReceive_bulk hi hn
    obtain ⟨rfl, hsame⟩ := List.append_inj (hcont.symm.trans hcont') (hlen.trans hlen'.symm)
    have hsize : s.buf.size = min n s.size + buf'.size := by
      rw [Queue.size_eq s.buf, Queue.size_eq buf', hcont', List.length_append, hlen]
    have hinv := hi.holdTaken (min_le_right _ _) hsize hcap'
    have hm : Moved s (min n s.size) buf' .write :=
      ⟨(hsize.trans (Nat.add_comm _ _)).symm, hcap'⟩
    have hsame' : s.bounded = true → buf.capacity = buf'.capacity :=
      fun _ => hcap.trans hcap'.symm
    exact ⟨_, _, _, _, _, hreceives, calls_of_moved hi hopen (hinv _) hn hm hinto, rfl,
      same_hold _ _ hsame hsame', calls_of_moved hi hopen (hinv _) hn hm hrange, rfl,
      same_hold _ _ hsame hsame'⟩

/-- On an open channel in any reached state, where the woken tasks are only scheduled: a bulk send
has the effect and the result of sending the objects one by one, and a bulk receive that of
receiving one by one.  (The objects of a send are counted by a `size_t`, which matters only on an
unbounded channel.) -/
theorem bulk_eq_scalar (hr : Reach step anyAction (newChannel limit) s) (hopen : s.closed = false) :
    (∀ (ra : Bool) (xs : List T), (s.bounded = false → xs.length ≤ sizeMax) →
      ∃ n ids t t₁ t₂, Sends s xs n ids t ∧
        Calls s (.trySend (.iter ra xs)) ids t₁ ∧
        t₁.log = s.log ++ [.sent none (.iter ra xs) (.iter n)] ∧ Same t t₁ ∧
        Calls s (.trySend (.range ra xs)) ids t₂ ∧
        t₂.log = s.log ++ [.sent none (.range ra xs) (.range n)] ∧ Same t t₂) ∧
    (∀ n, ∃ out ids t t₁ t₂, Receives s n out ids t ∧
      Calls s (.tryReceive (.into n)) ids t₁ ∧
      t₁.log = s.log ++ [.received none (.into out)] ∧ Same t t₁ ∧
      Calls s (.tryReceive (.range true n)) ids t₂ ∧
      t₂.log = s.log ++ [.received none (.range out)] ∧ Same t t₂) := by
  have hi := inv_of_reach hr
  exact ⟨bulk_send_eq hi hopen, bulk_receive_eq hi hopen⟩

/-- Two readers are suspended on a channel with two slots, and three objects are sent. -/
theorem bulk_eq_scalar_twoReaders :
    ∃ s, exec step (newChannel (some 2) : State ℕ) [.newReceive .one, .awaitSuspend 0,
        .newReceive .one, .awaitSuspend 1] = .ok s ∧ s.closed = false ∧
      ∃ n ids t, Sends s [7, 8, 9] n ids t := by
  refine ⟨_, rfl, rfl, ?_⟩
  have h : Reach step anyAction (newChannel (some 2) : State ℕ) _ :=
    reach_of_run (l := [.newReceive .one, .awaitSuspend 0, .newReceive .one, .awaitSuspend 1]) rfl
  obtain ⟨n, ids, t, -, -, hsends, -⟩ := (bulk_eq_scalar h rfl).1 true [7, 8, 9] (by decide)
  exact ⟨n, ids, t, hsends⟩

end Corral.Channel
