import Corral.Channel.Claims

/-!
# `Channel`: no object is lost, duplicated or reordered

* `received log` and `sent log` are the objects that the completed receives handed out and that
  the completed sends accepted, in the order of the transfers;
* `Settled`: what was received, followed by the buffer, is what was sent; and the awaiters that
  ended by cancellation are others than those that moved objects;
* `KeepsPhases s t`: between `s` and `t` no awaiter that had ended came back;
* `Settled.extend`: the effect of one recorded event;
* `received_append_buf_eq_sent`: the conservation law of every run.
-/

namespace Corral.Channel

open Registry ActionMachine

variable {T : Type*} {s t u : State T} {limit : Option ℕ}

/-- The objects an event handed out. -/
def Event.handedOut : Event T → List T
  | .received _ res => res.values
  | _ => []

/-- The objects an event accepted. -/
def Event.accepted : Event T → List T
  | .sent _ w res => w.accepted res
  | _ => []

/-- The awaiter that completed with the event. -/
def Event.who : Event T → Option ℕ
  | .received who _ => who
  | .sent who _ _ => who
  | .cancelled _ => none

def received (log : List (Event T)) : List T := log.flatMap Event.handedOut

def sent (log : List (Event T)) : List T := log.flatMap Event.accepted

/-- The awaiter `id` has been created and, while it lives, stands in phase `p`. -/
def Ended (s : State T) (p : Phase) (id : ℕ) : Prop :=
  id < s.nextId ∧ ∀ a, s.awaiters.lookup id = some a → a.phase = p

theorem ended_setAwaiter {id : ℕ} (hid : id < s.nextId) (a' : Awaiter T) :
    Ended (s.setAwaiter id a') a'.phase id := by
  refine ⟨hid, fun b hb => ?_⟩
  rw [State.setAwaiter, AList.lookup_insert, Option.some.injEq] at hb
  rw [hb]

/-- The log accounts for the objects and for the awaiters that have ended. -/
structure Settled (s : State T) : Prop where
  conserved : received s.log ++ s.buf.contents = sent s.log
  completed : ∀ e ∈ s.log, ∀ id, e.who = some id → Ended s .done id
  cancelled : ∀ id, Event.cancelled id ∈ s.log → Ended s .cancelled id
  exclusive : ∀ id, Event.cancelled id ∈ s.log → ∀ e ∈ s.log, e.who ≠ some id

/-- No awaiter that had ended has come back. -/
structure KeepsPhases (s t : State T) : Prop where
  nextId_le : s.nextId ≤ t.nextId
  phase : ∀ id b, id < s.nextId → t.awaiters.lookup id = some b →
    ∃ a, s.awaiters.lookup id = some a ∧
      (b.phase = a.phase ∨ (a.phase ≠ .done ∧ a.phase ≠ .cancelled))

namespace KeepsPhases

theorem refl (s : State T) : KeepsPhases s s :=
  ⟨le_rfl, fun _ b _ hb => ⟨b, hb, Or.inl rfl⟩⟩

theorem trans (h₁ : KeepsPhases s t) (h₂ : KeepsPhases t u) : KeepsPhases s u := by
  refine ⟨h₁.nextId_le.trans h₂.nextId_le, fun id c hid hc => ?_⟩
  obtain ⟨b, hb, hbc⟩ := h₂.phase id c (hid.trans_le h₁.nextId_le) hc
  obtain ⟨a, ha, hab⟩ := h₁.phase id b hid hb
  refine ⟨a, ha, ?_⟩
  rcases hab with hab | hab
  · rw [← hab]; exact hbc
  · exact Or.inr hab

/-- The fields that matter. -/
theorem congr (haw : t.awaiters = s.awaiters) (hn : t.nextId = s.nextId) : KeepsPhases s t :=
  ⟨hn.ge, fun _ b _ hb => ⟨b, haw ▸ hb, Or.inl rfl⟩⟩

/-- Exchanging the record of a new awaiter, or of one that has not ended. -/
theorem insert {id : ℕ} {a' : Awaiter T} (haw : t.awaiters = s.awaiters.insert id a')
    (hn : s.nextId ≤ t.nextId)
    (hlive : id < s.nextId → ∃ a, s.awaiters.lookup id = some a ∧
      a.phase ≠ .done ∧ a.phase ≠ .cancelled) : KeepsPhases s t := by
  refine ⟨hn, fun k b hk hb => ?_⟩
  rw [haw, lookup_insert_eq] at hb
  split_ifs at hb with hkid
  · subst hkid
    obtain ⟨a, ha, hp⟩ := hlive hk
    exact ⟨a, ha, Or.inr hp⟩
  · exact ⟨b, hb, Or.inl rfl⟩

theorem erase {id : ℕ} (haw : t.awaiters = s.awaiters.erase id) (hn : s.nextId ≤ t.nextId) :
    KeepsPhases s t := by
  refine ⟨hn, fun k b _ hb => ?_⟩
  rw [haw] at hb
  exact ⟨b, lookup_of_lookup_erase hb, Or.inl rfl⟩

theorem ended (hk : KeepsPhases s t) {p : Phase} (hp : p = .done ∨ p = .cancelled) {id : ℕ}
    (he : Ended s p id) : Ended t p id := by
  refine ⟨he.1.trans_le hk.nextId_le, fun b hb => ?_⟩
  obtain ⟨a, ha, hab⟩ := hk.phase id b he.1 hb
  have hap := he.2 a ha
  rcases hab with hab | ⟨hd, hc⟩
  · exact hab.trans hap
  · rcases hp with rfl | rfl
    · exact absurd hap hd
    · exact absurd hap hc

end KeepsPhases

/-! ### What the log says after a step -/

/-- A step that records nothing and moves nothing. -/
theorem Settled.frame (hs : Settled s) (hk : KeepsPhases s t) (hlog : t.log = s.log)
    (hbuf : t.buf.contents = s.buf.contents) : Settled t := by
  refine ⟨?_, ?_, ?_, ?_⟩
  · rw [hlog, hbuf]; exact hs.conserved
  · rw [hlog]; exact fun e he id hid => hk.ended (Or.inl rfl) (hs.completed e he id hid)
  · rw [hlog]; exact fun id hid => hk.ended (Or.inr rfl) (hs.cancelled id hid)
  · rw [hlog]; exact hs.exclusive

/-- A step that records one event: the objects balance, and an awaiter that ends with it had
not ended before. -/
theorem Settled.extend (hs : Settled s) (hk : KeepsPhases s t) (hlog : t.log = s.log)
    {e : Event T} (hflow : e.handedOut ++ t.buf.contents = s.buf.contents ++ e.accepted)
    (hwho : ∀ id, e.who = some id → Ended t .done id ∧
      ∃ a, s.awaiters.lookup id = some a ∧ a.phase ≠ .cancelled)
    (hcan : ∀ id, e = .cancelled id → Ended t .cancelled id ∧
      ∃ a, s.awaiters.lookup id = some a ∧ a.phase ≠ .done) : Settled (t.record e) := by
  have hmem : ∀ e', e' ∈ (t.record e).log ↔ e' ∈ s.log ∨ e' = e := by
    intro e'
    simp [State.record, hlog]
  refine ⟨?_, fun e' he' id hid => ?_, fun id hid => ?_, fun id hid e' he' => ?_⟩
  · have hr : received (t.record e).log = received s.log ++ e.handedOut := by
      simp [received, State.record, hlog]
    have hsent : sent (t.record e).log = sent s.log ++ e.accepted := by
      simp [sent, State.record, hlog]
    calc received (t.record e).log ++ t.buf.contents
        = received s.log ++ (e.handedOut ++ t.buf.contents) := by rw [hr, List.append_assoc]
      _ = (received s.log ++ s.buf.contents) ++ e.accepted := by rw [hflow, List.append_assoc]
      _ = sent (t.record e).log := by rw [hs.conserved, hsent]
  · rcases (hmem e').1 he' with he' | rfl
    · exact hk.ended (Or.inl rfl) (hs.completed e' he' id hid)
    · exact (hwho id hid).1
  · rcases (hmem _).1 hid with hid | hid
    · exact hk.ended (Or.inr rfl) (hs.cancelled id hid)
    · exact (hcan id hid.symm).1
  · -- one awaiter cannot have ended both ways: not in the old log, and the new event comes
    -- from an awaiter that had not ended
    rcases (hmem _).1 hid with hold | hnew
    · rcases (hmem e').1 he' with he' | rfl
      · exact hs.exclusive id hold e' he'
      · intro hw
        obtain ⟨-, a, ha, hp⟩ := hwho id hw
        exact hp ((hs.cancelled id hold).2 a ha)
    · rcases (hmem e').1 he' with he' | rfl
      · intro hw
        obtain ⟨-, a, ha, hp⟩ := hcan id hnew.symm
        exact hp ((hs.completed e' he' id hw).2 a ha)
      · rw [← hnew]
        exact fun h => by cases h

/-! ### The loops -/

theorem wakeAwaiters_frame {h : Half} (hi : Inv limit s) (hs : s.wakeAwaiters h = .ok t) :
    KeepsPhases s t ∧ t.log = s.log ∧ t.buf = s.buf := by
  rcases wakeAwaiters_cases hs with ⟨rfl, -⟩ | ⟨id, rest, a, -, hp, ha, -, rfl⟩
  · exact ⟨.refl _, rfl, rfl⟩
  · obtain ⟨b, hb, hw⟩ := hi.linked.waits h id (by simp [waiting_cons_of_parked hp])
    exact ⟨.insert rfl le_rfl fun _ => ⟨b, hb, by simp [hw.phase]⟩, rfl, rfl⟩

theorem unparked_frame {h : Half} {id : ℕ} {rest : List ℕ} {a : Awaiter T}
    (hi : Inv limit (s.enter (.unpark h (id :: rest)))) :
    KeepsPhases s (s.unparked h id rest a) := by
  obtain ⟨b, hb, hw⟩ := hi.linked.waits h id
    (by simp [State.enter, State.waiting, Frame.waiting])
  exact .insert rfl le_rfl fun _ => ⟨b, hb, by simp [hw.phase]⟩

theorem unparkWriters_frame {l : List ℕ} (hi : Inv limit (s.enter (.unpark .write l)))
    (hs : s.unparkWriters l = .ok t) : KeepsPhases s t ∧ t.log = s.log ∧ t.buf = s.buf := by
  rcases unparkWriters_cases hs with ⟨-, rfl⟩ | ⟨id, rest, a, rfl, -, rfl⟩
  · exact ⟨.refl _, rfl, rfl⟩
  · exact ⟨unparked_frame hi, rfl, rfl⟩

theorem unparkReaders_frame {l : List ℕ} (hi : Inv limit (s.enter (.unpark .read l)))
    (hs : s.unparkReaders l = .ok t) : KeepsPhases s t ∧ t.log = s.log ∧ t.buf = s.buf := by
  rcases unparkReaders_cases hs with ⟨rfl, hw⟩ | ⟨id, rest, a, rfl, -, rfl⟩
  · have hi' : Inv limit (s.writersDetached.enter (.unpark .write (s.parked .write))) :=
      hi.relink (fun h => by
        cases h <;> simp [State.enter, State.writersDetached, State.waiting, Frame.waiting])
        rfl rfl rfl rfl rfl
    obtain ⟨hk, hlog, hbuf⟩ := unparkWriters_frame hi' hw
    have hk₀ : KeepsPhases s s.writersDetached := .congr rfl rfl
    exact ⟨hk₀.trans hk, hlog, hbuf⟩
  · exact ⟨unparked_frame hi, rfl, rfl⟩

theorem Settled.resumeReturns (hi : Inv limit s) (hset : Settled s)
    (hs : s.resumeReturns = .ok t) : Settled t := by
  rcases resumeReturns_cases hs with ⟨h, fs, hf, hs⟩ | ⟨rest, fs, hf, hs⟩ | ⟨rest, fs, hf, hs⟩
  · obtain ⟨hk, hlog, hbuf⟩ := wakeAwaiters_frame (s := { s with frames := fs })
      (hi.relink (fun h => by simp [State.waiting, hf, Frame.waiting]) rfl rfl rfl rfl rfl) hs
    have hk₀ : KeepsPhases s { s with frames := fs } := .congr rfl rfl
    exact hset.frame (hk₀.trans hk) hlog (by rw [hbuf])
  · obtain ⟨hk, hlog, hbuf⟩ := unparkReaders_frame ((enter_frames hf).symm ▸ hi) hs
    have hk₀ : KeepsPhases s { s with frames := fs } := .congr rfl rfl
    exact hset.frame (hk₀.trans hk) hlog (by rw [hbuf])
  · obtain ⟨hk, hlog, hbuf⟩ := unparkWriters_frame ((enter_frames hf).symm ▸ hi) hs
    have hk₀ : KeepsPhases s { s with frames := fs } := .congr rfl rfl
    exact hset.frame (hk₀.trans hk) hlog (by rw [hbuf])

theorem Settled.close (hi : Inv limit s) (hset : Settled s) (hs : s.close = .ok t) :
    Settled t := by
  have hi' : Inv limit (s.readersDetached.enter (.unpark .read (s.parked .read))) :=
    hi.relink (fun h => by
      cases h <;> simp [State.enter, State.readersDetached, State.waiting, Frame.waiting])
      rfl rfl rfl rfl rfl
  obtain ⟨hk, hlog, hbuf⟩ := unparkReaders_frame hi' hs
  have hk₀ : KeepsPhases s s.readersDetached := .congr rfl rfl
  exact hset.frame (hk₀.trans hk) hlog (by rw [hbuf]; rfl)

/-! ### Transfers -/

theorem readTransfer_frame {c : ℕ} {r : Recv} {res : RecvResult T}
    (hl : Linked s.waiting s.awaiters s.nextId) (hc : Counted (owes .read c) s)
    (hs : s.readTransfer c r = .ok (res, t)) :
    KeepsPhases s t ∧ t.log = s.log ∧ s.buf.contents = res.values ++ t.buf.contents := by
  obtain ⟨hle, ⟨rfl, hnil, -⟩ | ⟨buf, -, hlen, hcont, hbuf, hw⟩⟩ := readTransfer_cases hs
  · exact ⟨.refl _, rfl, by rw [hnil, List.nil_append]⟩
  · have hsize : s.buf.size = res.values.length + buf.size := by
      rw [Queue.size_eq, Queue.size_eq, hcont, List.length_append]
    have hi : Inv (s.taken c buf).limit (s.taken c buf) :=
      ⟨hl, hc.taken hle hlen hsize hbuf, rfl⟩
    obtain ⟨hk, hlog, hb⟩ := wakeAwaiters_frame hi hw
    have hk₀ : KeepsPhases s (s.taken c buf) := .congr rfl rfl
    exact ⟨hk₀.trans hk, hlog, by rw [hb]; exact hcont⟩

theorem writeTransfer_frame {c : ℕ} {w : Send T} {res : SendResult}
    (hl : Linked s.waiting s.awaiters s.nextId) (hc : Counted (owes .write c) s)
    (hs : s.writeTransfer c w = .ok (res, t)) :
    KeepsPhases s t ∧ t.log = s.log ∧ t.buf.contents = s.buf.contents ++ w.accepted res := by
  obtain ⟨hle, ⟨rfl, hfail, -⟩ | ⟨buf, -, hlen, hopen, hcont, hbuf, hw⟩⟩ := writeTransfer_cases hs
  · refine ⟨.refl _, rfl, ?_⟩
    subst hfail
    cases w <;> simp [Send.failure, Send.accepted]
  · have hsize : buf.size = s.buf.size + (w.accepted res).length := by
      rw [Queue.size_eq, Queue.size_eq, hcont, List.length_append]
    have hi : Inv (s.put c buf).limit (s.put c buf) :=
      ⟨hl, hc.put hle hopen hlen hsize hbuf, rfl⟩
    obtain ⟨hk, hlog, hb⟩ := wakeAwaiters_frame hi hw
    have hk₀ : KeepsPhases s (s.put c buf) := .congr rfl rfl
    exact ⟨hk₀.trans hk, hlog, by rw [hb]; exact hcont⟩

/-- A transfer from a state `u` that differs from `s` only in the awaiter that carries it
out. -/
theorem Settled.transfer {who : Option ℕ} {a : Awaiter T} {c : ℕ} (hset : Settled s)
    (hk : KeepsPhases s u) (hlog : u.log = s.log) (hbuf : u.buf = s.buf)
    (hl : Linked u.waiting u.awaiters u.nextId) (hc : Counted (owes a.half c) u)
    (hwho : ∀ id, who = some id → Ended u .done id ∧
      ∃ a, s.awaiters.lookup id = some a ∧ a.phase ≠ .cancelled)
    (hs : u.transfer who c a.args = .ok t) : Settled t := by
  rcases a with ⟨r | w, cl, ph⟩
  · obtain ⟨⟨res, v⟩, hv, rfl⟩ := map_eq_ok.1 hs
    obtain ⟨hk', hlog', hflow⟩ := readTransfer_frame hl hc hv
    refine hset.extend (hk.trans hk') (hlog'.trans hlog) ?_ (fun id hid => ?_)
      (fun id hid => by cases hid)
    · show res.values ++ v.buf.contents = s.buf.contents ++ []
      rw [← hflow, hbuf, List.append_nil]
    · obtain ⟨he, hlive⟩ := hwho id hid
      exact ⟨hk'.ended (Or.inl rfl) he, hlive⟩
  · obtain ⟨⟨res, v⟩, hv, rfl⟩ := map_eq_ok.1 hs
    obtain ⟨hk', hlog', hflow⟩ := writeTransfer_frame hl hc hv
    refine hset.extend (hk.trans hk') (hlog'.trans hlog) ?_ (fun id hid => ?_)
      (fun id hid => by cases hid)
    · show [] ++ v.buf.contents = s.buf.contents ++ w.accepted res
      rw [hflow, hbuf, List.nil_append]
    · obtain ⟨he, hlive⟩ := hwho id hid
      exact ⟨hk'.ended (Or.inl rfl) he, hlive⟩

theorem Settled.tryTransfer (hi : Inv limit s) (hset : Settled s) (args : Recv ⊕ Send T)
    (hs : s.transfer none 0 args = .ok t) : Settled t := by
  refine hset.transfer (a := ⟨args, false, .constructed⟩) (.refl s) rfl rfl hi.linked ?_
    (fun id hid => by cases hid) hs
  simpa [owes] using hi.counted

/-! ### Awaiters -/

theorem Settled.newAwaiter (hset : Settled s) (args : Recv ⊕ Send T) :
    Settled (s.newAwaiter args) := by
  obtain ⟨a, -, ⟨-, -, he⟩ | ⟨-, he⟩⟩ := newAwaiter_cases s args
  all_goals
    rw [he]
    refine hset.frame (.insert rfl (Nat.le_succ _) fun h => ?_) rfl rfl
    exact absurd h (lt_irrefl _)

theorem Settled.awaitSuspend (hset : Settled s) {id : ℕ} {a : Awaiter T}
    (ha : s.awaiters.lookup id = some a) (hs : s.awaitSuspend id a = .ok t) : Settled t := by
  obtain ⟨hph, -, -, -, ht⟩ := awaitSuspend_cases hs
  have hlive : a.phase ≠ .done ∧ a.phase ≠ .cancelled := by simp [hph]
  rcases ht with ⟨-, rfl⟩ | ⟨-, rfl⟩
  all_goals exact hset.frame (.insert rfl le_rfl fun _ => ⟨a, ha, hlive⟩) rfl rfl

theorem Settled.awaitResume (hi : Inv limit s) (hset : Settled s) {id : ℕ} {a : Awaiter T}
    (ha : s.awaiters.lookup id = some a) (hs : s.awaitResume id a = .ok t) : Settled t := by
  obtain ⟨hph, -, ht⟩ := awaitResume_cases hs
  have hlive : a.phase ≠ .done ∧ a.phase ≠ .cancelled := by rcases hph with h | h <;> simp [h]
  have hnot := hi.linked.notMem_of_phase ha (by rcases hph with h | h <;> simp [h])
  refine hset.transfer (u := s.setAwaiter id { a with claimed := false, phase := .done })
    (.insert rfl le_rfl fun _ => ⟨a, ha, hlive⟩) rfl rfl
    (hi.linked.replace (hi.linked.lt ha) hnot fun h => by cases h)
    (hi.counted.clear ha rfl) (fun k hk => ?_) ht
  cases hk
  exact ⟨ended_setAwaiter (hi.linked.lt ha) { a with claimed := false, phase := .done }, a, ha,
    hlive.2⟩

theorem Settled.awaitCancel (hi : Inv limit s) (hset : Settled s) {id : ℕ} {a : Awaiter T}
    (ha : s.awaiters.lookup id = some a) (hs : s.awaitCancel id a = .ok t) : Settled t := by
  obtain ⟨hph, rfl⟩ := awaitCancel_cases hs
  have hlive : a.phase ≠ .done ∧ a.phase ≠ .cancelled := by simp [hph]
  refine hset.extend (t := (s.unlink id).setAwaiter id { a with phase := .cancelled })
    (e := .cancelled id) (.insert rfl le_rfl fun _ => ⟨a, ha, hlive⟩) rfl
    (List.append_nil _).symm (fun k hk => by cases hk) (fun k hk => ?_)
  cases hk
  exact ⟨ended_setAwaiter (hi.linked.lt ha) { a with phase := .cancelled }, a, ha, hlive.1⟩

theorem Settled.destroyed (hi : Inv limit s) (hset : Settled s) {id : ℕ} {a : Awaiter T}
    (ha : s.awaiters.lookup id = some a) : Settled (s.destroyed id a) := by
  have hk : KeepsPhases s (s.without id) := .erase rfl le_rfl
  rcases destroyed_cases s id a with he | ⟨⟨-, hdone⟩, he⟩
  · rw [he]
    exact hset.frame hk rfl rfl
  · rw [he]
    refine hset.extend hk rfl (List.append_nil _).symm (fun k h => by cases h) (fun k h => ?_)
    cases h
    refine ⟨⟨hi.linked.lt ha, fun b hb => ?_⟩, a, ha, hdone⟩
    rw [State.without, AList.lookup_erase] at hb
    cases hb

theorem Settled.destroy (hi : Inv limit s) (hset : Settled s) {id : ℕ} {a : Awaiter T}
    (ha : s.awaiters.lookup id = some a) (hs : s.destroy id a = .ok t) : Settled t := by
  have hd := hset.destroyed hi ha
  rcases destroy_cases hs with ⟨-, rfl⟩ | ⟨hcl, hw⟩
  · exact hd
  · obtain ⟨hl, hc, hlim⟩ := hi.destroyed ha
    rw [hcl] at hc
    obtain ⟨hk, hlog, hbuf⟩ := wakeAwaiters_frame
      (s := (s.destroyed id a).settle a.half 1) ⟨hl, hc.settle, hlim⟩ hw
    have hk₀ : KeepsPhases (s.destroyed id a) ((s.destroyed id a).settle a.half 1) :=
      .congr rfl rfl
    exact hd.frame (hk₀.trans hk) hlog (by rw [hbuf]; rfl)

/-- The step lemma. -/
theorem Settled.step (hi : Inv limit s) (hset : Settled s) {act : Action T}
    (hs : step s act = .ok t) : Settled t := by
  cases act with
  | newReceive r => cases hs; exact hset.newAwaiter _
  | newSend w => cases hs; exact hset.newAwaiter _
  | awaitSuspend id =>
    obtain ⟨a, ha, hs⟩ := withAwaiter_eq_ok hs
    exact hset.awaitSuspend ha hs
  | awaitResume id =>
    obtain ⟨a, ha, hs⟩ := withAwaiter_eq_ok hs
    exact hset.awaitResume hi ha hs
  | awaitCancel id =>
    obtain ⟨a, ha, hs⟩ := withAwaiter_eq_ok hs
    exact hset.awaitCancel hi ha hs
  | destroy id =>
    obtain ⟨a, ha, hs⟩ := withAwaiter_eq_ok hs
    exact hset.destroy hi ha hs
  | tryReceive r => exact hset.tryTransfer hi (.inl r) hs
  | trySend w => exact hset.tryTransfer hi (.inr w) hs
  | close => exact hset.close hi hs
  | resumeReturns => exact hset.resumeReturns hi hs

/-- The run lemma. -/
theorem settled_of_reach (hr : Reach step anyAction (newChannel limit) s) : Settled s := by
  refine hr.invariant_of (J := Inv limit) (fun _ => inv_of_reach) ?_
    fun _ _ _ hi ha _ hs => ha.step hi hs
  cases limit <;>
    constructor <;> simp [newChannel, unboundedChannel, boundedChannel, received, sent]

/-- In every state of every run: the objects received so far, followed by those in the buffer,
are the objects sent so far, in this order; and an awaiter that ended by cancellation has moved
none of them. -/
theorem received_append_buf_eq_sent (hr : Reach step anyAction (newChannel limit) s) :
    received s.log ++ s.buf.contents = sent s.log ∧
    ∀ id, Event.cancelled id ∈ s.log → ∀ e ∈ s.log, e.who ≠ some id := by
  have h := settled_of_reach hr
  exact ⟨h.conserved, h.exclusive⟩

/-- A range is sent, a claimed reader is cancelled by its destruction, and another one
receives. -/
def cancelledReader : List (Action ℕ) :=
  [.trySend (.range true [1, 2, 3]), .newReceive .one, .newReceive (.into 2), .destroy 0,
    .awaitResume 1]

theorem received_append_buf_eq_sent_cancelledReader :
    ∃ s, exec step (newChannel none) cancelledReader = .ok s ∧
      Event.cancelled 0 ∈ s.log ∧ received s.log = [1, 2] ∧
      received s.log ++ s.buf.contents = sent s.log := by
  refine ⟨_, rfl, ?_, rfl, ?_⟩
  · exact List.mem_cons_of_mem _ List.mem_cons_self
  · exact (received_append_buf_eq_sent
      (reach_of_run (s := newChannel none) (l := cancelledReader) rfl)).1

end Corral.Channel
