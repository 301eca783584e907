import Corral.Channel.Delivery
import Corral.Channel.Wakeups
import Corral.ParkingLot.Resuming

/-!
# `Channel`: the halves as parking lots

Each half of a channel is a `ParkingLotImpl`, and does with its lists what a parking lot does.

* `Lot`: the lists of a parking lot, and the calls of `unparkAll()` that have returned; `Lot.Step` is
  what can happen to it, and `Lot.Exact` what holds of its calls;
* `Tracks`: the lists of a channel are those of a lot for each half;
* `Observes`: the lots go on with a step of the channel, resume exactly the awaiters that the channel
  resumes, and lose only awaiters that are cancelled or destroyed;
* `Watched`: a run of a channel with its lots, which there is for every run (`watched_of_reach`);
* `unparkAll_exact_everywhere`: what `unparkAll()` does, wherever it is called.
-/

namespace Corral.Channel

open Registry ActionMachine WaitQueue

/-- The lists of a parking lot, and the calls of `unparkAll()` that have returned. -/
structure Lot where
  lists : Lists ℕ Unit
  finished : List (Batch ℕ Unit)

/-- What happens at a parking lot: a call of `unparkAll()` begins, with those who are parked then, and
an awaiter is resumed or leaves. -/
inductive LotEvent
  | called (ids : List ℕ)
  | resumed (id : ℕ)
  | withdrawn (id : ℕ)
  deriving DecidableEq

/-- What happens to a parking lot. -/
inductive Lot.Step (l : Lot) : List LotEvent → Lot → Prop
  | park {i : ℕ} : i ∉ l.lists.all → Step l [] { l with lists := l.lists.put i }
  | withdraw (i : ℕ) : Step l [.withdrawn i] { l with lists := l.lists.unlink i }
  | unparkOne {i : ℕ} {rest : List ℕ} : l.lists.waiting = i :: rest →
      Step l [.resumed i] { l with lists := { l.lists with waiting := rest } }
  | start : Step l [.called l.lists.waiting] { l with lists := l.lists.start () }
  | unpark {b : Batch ℕ Unit} {bs : List (Batch ℕ Unit)} {i : ℕ} {rest : List ℕ} :
      l.lists.batches = b :: bs → b.pending = i :: rest →
      Step l [.resumed i] { l with lists := { l.lists with batches := b.serve i rest :: bs } }
  | finish {b : Batch ℕ Unit} {bs : List (Batch ℕ Unit)} :
      l.lists.batches = b :: bs → b.pending = [] →
      Step l [] ⟨{ l.lists with batches := bs }, l.finished ++ [b]⟩

inductive Lot.Steps (l : Lot) : List LotEvent → Lot → Prop
  | refl : Steps l [] l
  | tail {evs evs' : List LotEvent} {l' l'' : Lot} : Steps l evs l' → l'.Step evs' l'' →
      Steps l (evs ++ evs') l''

/-- All calls, those that have returned and those in progress. -/
def Lot.calls (l : Lot) : List (Batch ℕ Unit) := l.finished ++ l.lists.batches

/-- Nobody is in two lists, and every call is in order. -/
structure Lot.Sound (l : Lot) : Prop where
  lists : l.lists.Sound
  ended : ∀ b ∈ l.finished, b.Ordered ∧ b.pending = []

theorem Lot.Sound.step {l l' : Lot} {evs : List LotEvent} (h : l.Sound) (hs : l.Step evs l') :
    l'.Sound := by
  obtain ⟨h, hend⟩ := h
  cases hs with
  | park hi => exact ⟨h.put hi, hend⟩
  | withdraw i => exact ⟨h.unlink i, hend⟩
  | unparkOne hw => exact ⟨h.pop hw, hend⟩
  | start => exact ⟨h.start (), hend⟩
  | unpark hb hp => exact ⟨(h.serve hb hp).1, hend⟩
  | finish hb hp =>
    refine ⟨h.finish hb hp, fun c hc => ?_⟩
    rcases List.mem_append.1 hc with hc | hc
    · exact hend c hc
    · rw [List.mem_singleton.1 hc]
      exact ⟨h.ordered _ (hb ▸ List.mem_cons_self), hp⟩

variable {T : Type*} {s t u : State T} {limit : Option ℕ} {L : Half → Lot} {h : Half}

/-! ### The lots of a channel -/

/-- The local list of a call of `unparkAll()` in progress. -/
def Frame.locals (h : Half) : Frame → List (List ℕ)
  | .wake _ => []
  | .unpark h' rest => if h' = h then [rest] else []

/-- The lists of the channel are those of the lots. -/
def Tracks (s : State T) (L : Half → Lot) : Prop :=
  ∀ h, (L h).lists.waiting = s.parked h ∧
    (L h).lists.batches.map Batch.pending = s.frames.flatMap (Frame.locals h)

/-- The awaiter `id` of half `h` is resumed: it was suspended, and is to go on. -/
def Resumed (s t : State T) (h : Half) (id : ℕ) : Prop :=
  ∃ a b, s.awaiters.lookup id = some a ∧ a.half = h ∧ a.phase = .parked ∧
    t.awaiters.lookup id = some b ∧ b.phase = .woken

/-- The lots go on. -/
def Moves (L : Half → Lot) (evs : Half → List LotEvent) (L' : Half → Lot) : Prop :=
  ∀ h, (L h).Steps (evs h) (L' h)

/-- Nothing happens to the awaiters. -/
def nothing : Half → List LotEvent := fun _ => []

theorem Moves.refl (L : Half → Lot) : Moves L nothing L := fun _ => .refl

/-- One lot goes on. -/
theorem Moves.tail {L' : Half → Lot} {l : Lot} {evs : List LotEvent} (hm : Moves L nothing L')
    (hs : (L' h).Step evs l) :
    Moves L (Function.update nothing h evs) (Function.update L' h l) := by
  intro h'
  by_cases hh : h' = h
  · subst hh
    rw [Function.update_self, Function.update_self]
    exact (hm h').tail hs
  · rw [Function.update_of_ne hh, Function.update_of_ne hh]
    exact hm h'

/-- One lot goes on, and nothing happens to the awaiters. -/
theorem Moves.quiet {L' : Half → Lot} {l : Lot} (hm : Moves L nothing L') (hs : (L' h).Step [] l) :
    Moves L nothing (Function.update L' h l) := by
  have ht := hm.tail hs
  rwa [show Function.update nothing h [] = nothing from Function.update_eq_self h nothing] at ht

theorem Lot.Steps.trans {l l' l'' : Lot} {evs evs' : List LotEvent} (h : l.Steps evs l')
    (h' : l'.Steps evs' l'') : l.Steps (evs ++ evs') l'' := by
  induction h' with
  | refl => rwa [List.append_nil]
  | tail _ hs ih =>
    rw [← List.append_assoc]
    exact ih.tail hs

theorem Moves.trans {L' L'' : Half → Lot} {evs evs' : Half → List LotEvent} (hm : Moves L evs L')
    (hm' : Moves L' evs' L'') : Moves L (fun h => evs h ++ evs' h) L'' :=
  fun h => (hm h).trans (hm' h)

theorem Tracks.update {l : Lot} (hw : l.lists.waiting = t.parked h)
    (hb : l.lists.batches.map Batch.pending = t.frames.flatMap (Frame.locals h))
    (ho : ∀ h', h' ≠ h → (L h').lists.waiting = t.parked h' ∧
      (L h').lists.batches.map Batch.pending = t.frames.flatMap (Frame.locals h')) :
    Tracks t (Function.update L h l) := by
  intro h'
  by_cases hh : h' = h
  · subst hh
    rw [Function.update_self]
    exact ⟨hw, hb⟩
  · rw [Function.update_of_ne hh]
    exact ho h' hh

/-- Who is resumed between two states: nobody, or one suspended awaiter. -/
inductive WakesOne (s t : State T) : (Half → List LotEvent) → Prop
  | none : t.awaiters = s.awaiters → WakesOne s t nothing
  | one {id : ℕ} {a b : Awaiter T} : s.awaiters.lookup id = some a → a.phase = .parked →
      t.awaiters = s.awaiters.insert id b → b.phase = .woken →
      WakesOne s t (Function.update nothing a.half [.resumed id])

/-- What a function of the channel does to the lots: it begins the calls of `unparkAll()` that `calls`
lists, and resumes an awaiter at most. -/
def Follows (s t : State T) (L : Half → Lot) (calls : Half → List LotEvent) : Prop :=
  ∃ evs L', Moves L (fun h => calls h ++ evs h) L' ∧ Tracks t L' ∧ WakesOne s t evs

/-- A call of `unparkAll()` of half `h` begins. -/
def State.begins (s : State T) (h : Half) : Half → List LotEvent :=
  Function.update nothing h [.called (s.parked h)]

/-! ### The loops -/

theorem follows_wakeAwaiters (hl : Linked s.waiting s.awaiters s.nextId) (ht : Tracks s L)
    (hs : s.wakeAwaiters h = .ok t) : Follows s t L nothing := by
  rcases wakeAwaiters_cases hs with ⟨rfl, -⟩ | ⟨id, rest, a, -, hp, ha, -, rfl⟩
  · exact ⟨nothing, L, .refl L, ht, .none rfl⟩
  · obtain ⟨a', ha', hwaits⟩ := hl.waits h id (by simp [waiting_cons_of_parked hp])
    rw [ha] at ha'
    cases ha'
    have hstep : (L h).Step [.resumed id] { L h with lists := { (L h).lists with waiting := rest } } :=
      .unparkOne ((ht h).1.trans hp)
    have hwakes : WakesOne s (s.woken h id rest a) (Function.update nothing a.half [.resumed id]) :=
      .one ha hwaits.phase rfl rfl
    rw [hwaits.half] at hwakes
    refine ⟨_, _, (Moves.refl L).tail hstep, Tracks.update ?_ (ht h).2 fun h' hh => ?_, hwakes⟩
    · exact (Function.update_self h rest s.parked).symm
    · exact ⟨(ht h').1.trans (Function.update_of_ne hh _ _).symm, (ht h').2⟩

/-- A call of `unparkAll()` resumes the next awaiter. -/
theorem follows_unparked {id : ℕ} {rest : List ℕ} {a : Awaiter T}
    (hl : Linked (s.enter (.unpark h (id :: rest))).waiting s.awaiters s.nextId)
    (ht : Tracks (s.enter (.unpark h (id :: rest))) L) (ha : s.awaiters.lookup id = some a) :
    Follows s (s.unparked h id rest a) L nothing := by
  obtain ⟨a', ha', hwaits⟩ := hl.waits h id (by simp [State.enter, State.waiting, Frame.waiting])
  rw [ha] at ha'
  cases ha'
  have hb := (ht h).2
  simp only [State.enter, List.flatMap_cons, Frame.locals, if_true, List.singleton_append] at hb
  obtain ⟨b, bs, hbs, hp, hrest⟩ := List.map_eq_cons_iff.1 hb
  have hwakes : WakesOne s (s.unparked h id rest a) (Function.update nothing a.half [.resumed id]) :=
    .one ha hwaits.phase rfl rfl
  rw [hwaits.half] at hwakes
  refine ⟨_, _, (Moves.refl L).tail (.unpark hbs hp), Tracks.update (ht h).1 ?_ fun h' hh => ?_,
    hwakes⟩
  · show (b.serve id rest :: bs).map Batch.pending = (Frame.unpark h rest :: s.frames).flatMap _
    rw [List.map_cons, hrest, List.flatMap_cons, Frame.locals, if_pos rfl]
    rfl
  · refine ⟨(ht h').1, (ht h').2.trans ?_⟩
    simp [State.enter, State.unparked, Frame.locals, Ne.symm hh]

/-- A call of `unparkAll()` returns. -/
theorem moves_finish (ht : Tracks (s.enter (.unpark h [])) L) :
    ∃ L', Moves L nothing L' ∧ Tracks s L' := by
  have hb := (ht h).2
  simp only [State.enter, List.flatMap_cons, Frame.locals, if_true, List.singleton_append] at hb
  obtain ⟨b, bs, hbs, hp, hrest⟩ := List.map_eq_cons_iff.1 hb
  refine ⟨_, (Moves.refl L).quiet (.finish hbs hp), Tracks.update (ht h).1 hrest fun h' hh => ?_⟩
  refine ⟨(ht h').1, (ht h').2.trans ?_⟩
  simp [State.enter, Frame.locals, Ne.symm hh]

/-- A call of `unparkAll()` begins. -/
theorem moves_start (ht : Tracks s L) :
    ∃ L', Moves L (s.begins h) L' ∧
      Tracks ({ s with parked := Function.update s.parked h [] }.enter
        (.unpark h (s.parked h))) L' := by
  have hm := (Moves.refl L).tail (h := h) .start
  rw [(ht h).1] at hm
  refine ⟨_, hm, Tracks.update ?_ ?_ fun h' hh => ?_⟩
  · exact (Function.update_self h [] s.parked).symm
  · show (L h).lists.waiting :: (L h).lists.batches.map Batch.pending = _
    rw [(ht h).1, (ht h).2]
    simp [State.enter, Frame.locals]
  · refine ⟨(ht h').1.trans (Function.update_of_ne hh _ _).symm, (ht h').2.trans ?_⟩
    simp [State.enter, Frame.locals, Ne.symm hh]

theorem Follows.after {L' : Half → Lot} {calls calls' : Half → List LotEvent}
    (hf : Follows s t L' calls') (hm : Moves L calls L') :
    Follows s t L fun h => calls h ++ calls' h := by
  obtain ⟨evs, L'', hm', ht, hw⟩ := hf
  refine ⟨evs, L'', ?_, ht, hw⟩
  simp only [List.append_assoc]
  exact hm.trans hm'

theorem Follows.congr {calls : Half → List LotEvent} (hf : Follows s t L calls)
    (ha : s.awaiters = u.awaiters) : Follows u t L calls := by
  obtain ⟨evs, L', hm, ht, hw⟩ := hf
  refine ⟨evs, L', hm, ht, ?_⟩
  cases hw with
  | none h => exact .none (h.trans ha)
  | one h₁ h₂ h₃ h₄ => exact .one (ha ▸ h₁) h₂ (ha ▸ h₃) h₄

theorem follows_unparkWriters {l : List ℕ}
    (hl : Linked (s.enter (.unpark .write l)).waiting s.awaiters s.nextId)
    (ht : Tracks (s.enter (.unpark .write l)) L) (hs : s.unparkWriters l = .ok t) :
    Follows s t L nothing := by
  rcases unparkWriters_cases hs with ⟨rfl, rfl⟩ | ⟨id, rest, a, rfl, ha, rfl⟩
  · obtain ⟨L', hm, ht'⟩ := moves_finish ht
    exact ⟨nothing, L', hm, ht', .none rfl⟩
  · exact follows_unparked hl ht ha

theorem follows_unparkReaders {l : List ℕ}
    (hl : Linked (s.enter (.unpark .read l)).waiting s.awaiters s.nextId)
    (ht : Tracks (s.enter (.unpark .read l)) L) (hs : s.unparkReaders l = .ok t) :
    Follows s t L (if l = [] then s.begins .write else nothing) := by
  rcases unparkReaders_cases hs with ⟨rfl, hw⟩ | ⟨id, rest, a, rfl, ha, rfl⟩
  · -- the readers are through, and it goes on with the writers
    obtain ⟨L₁, hm₁, ht₁⟩ := moves_finish ht
    obtain ⟨L₂, hm₂, ht₂⟩ := moves_start (h := .write) ht₁
    have hl₂ : Linked (s.writersDetached.enter (.unpark .write (s.parked .write))).waiting
        s.awaiters s.nextId := by
      refine hl.sublist fun h => ?_
      cases h <;> simp [State.enter, State.writersDetached, State.waiting, Frame.waiting]
    have hf : Follows s.writersDetached t L₂ nothing := follows_unparkWriters hl₂ ht₂ hw
    have hcalls : (fun h => s.begins .write h ++ nothing h) = s.begins .write :=
      funext fun h => List.append_nil _
    exact hcalls ▸ ((hf.after hm₂).after hm₁).congr rfl
  · exact follows_unparked hl ht ha

/-- The calls of `unparkAll()` that begin in a step: `close()` calls it for the readers, and when that
has returned for the writers. -/
def begun (s : State T) : Action T → Half → List LotEvent
  | .close => fun h => s.begins .read h ++ (if s.parked .read = [] then s.begins .write else nothing) h
  | .resumeReturns => if s.frames.head? = some (.unpark .read []) then s.begins .write else nothing
  | _ => nothing

theorem follows_close (hl : Linked s.waiting s.awaiters s.nextId) (ht : Tracks s L)
    (hs : s.close = .ok t) : Follows s t L (begun s .close) := by
  obtain ⟨L', hm, ht'⟩ := moves_start (h := .read) ht
  have hl' : Linked (s.readersDetached.enter (.unpark .read (s.parked .read))).waiting
      s.awaiters s.nextId := by
    refine hl.sublist fun h => ?_
    cases h <;> simp [State.enter, State.readersDetached, State.waiting, Frame.waiting]
  have hf := follows_unparkReaders (s := s.readersDetached) hl' ht' hs
  exact (hf.after hm).congr rfl

theorem follows_resumeReturns (hl : Linked s.waiting s.awaiters s.nextId) (ht : Tracks s L)
    (hs : s.resumeReturns = .ok t) : Follows s t L (begun s .resumeReturns) := by
  rcases resumeReturns_cases hs with ⟨h, fs, hf, hs⟩ | ⟨rest, fs, hf, hs⟩ | ⟨rest, fs, hf, hs⟩
  · have hfl : Follows { s with frames := fs } t L nothing := by
      refine follows_wakeAwaiters (hl.sublist fun h => ?_) (fun h' => ⟨(ht h').1, ?_⟩) hs
      · simp [State.waiting, hf, Frame.waiting]
      · rw [(ht h').2, hf]
        rfl
    rw [begun, hf, if_neg (by simp)]
    exact hfl.congr rfl
  · have he := enter_frames hf
    have hfl := follows_unparkReaders (s := { s with frames := fs }) (he.symm ▸ hl) (he.symm ▸ ht) hs
    have hcalls : begun s .resumeReturns = if rest = [] then s.begins .write else nothing := by
      simp [begun, hf]
    exact hcalls ▸ hfl.congr rfl
  · have he := enter_frames hf
    have hfl : Follows { s with frames := fs } t L nothing :=
      follows_unparkWriters (he.symm ▸ hl) (he.symm ▸ ht) hs
    rw [begun, hf, if_neg (by simp)]
    exact hfl.congr rfl

/-! ### Transfers -/

theorem Follows.record {calls : Half → List LotEvent} (hf : Follows s t L calls) (e : Event T) :
    Follows s (t.record e) L calls := by
  obtain ⟨evs, L', hm, ht, hw⟩ := hf
  refine ⟨evs, L', hm, ht, ?_⟩
  cases hw with
  | none h => exact .none h
  | one h₁ h₂ h₃ h₄ => exact .one h₁ h₂ h₃ h₄

theorem follows_transfer {who : Option ℕ} {c : ℕ} {args : Recv ⊕ Send T}
    (hl : Linked s.waiting s.awaiters s.nextId) (ht : Tracks s L)
    (hs : s.transfer who c args = .ok t) : Follows s t L nothing := by
  cases args with
  | inl r =>
    obtain ⟨⟨res, u⟩, hu, rfl⟩ := map_eq_ok.1 hs
    obtain ⟨-, ⟨rfl, -, -⟩ | ⟨buf, -, -, -, -, hw⟩⟩ := readTransfer_cases hu
    · exact Follows.record ⟨nothing, L, .refl L, ht, .none rfl⟩ _
    · have hf : Follows (s.taken c buf) u L nothing := follows_wakeAwaiters hl ht hw
      have hfs : Follows s u L nothing := hf.congr rfl
      exact hfs.record _
  | inr w =>
    obtain ⟨⟨res, u⟩, hu, rfl⟩ := map_eq_ok.1 hs
    obtain ⟨-, ⟨rfl, -, -⟩ | ⟨buf, -, -, -, -, -, hw⟩⟩ := writeTransfer_cases hu
    · exact Follows.record ⟨nothing, L, .refl L, ht, .none rfl⟩ _
    · have hf : Follows (s.put c buf) u L nothing := follows_wakeAwaiters hl ht hw
      have hfs : Follows s u L nothing := hf.congr rfl
      exact hfs.record _

/-! ### Awaiters -/

theorem locals_unlink (id : ℕ) (h : Half) (f : Frame) :
    Frame.locals h (f.unlink id) = (Frame.locals h f).map (·.erase id) := by
  cases f with
  | wake h' => rfl
  | unpark h' rest =>
    simp only [Frame.unlink, Frame.locals]
    split_ifs <;> rfl

/-- An awaiter leaves whatever list it is in. -/
theorem moves_unlink (ht : Tracks s L) (id : ℕ) :
    ∃ L', Moves L (fun _ => [.withdrawn id]) L' ∧ Tracks (s.unlink id) L' := by
  refine ⟨fun h => { L h with lists := (L h).lists.unlink id },
    fun h => .tail .refl (.withdraw id), fun h => ⟨?_, ?_⟩⟩
  · show (L h).lists.waiting.erase id = _
    rw [(ht h).1]
    rfl
  · show ((L h).lists.batches.map (·.unlink id)).map Batch.pending
      = (s.frames.map (Frame.unlink id)).flatMap (Frame.locals h)
    have hp : (Batch.pending ∘ fun b : Batch ℕ Unit => b.unlink id)
        = (fun l => l.erase id) ∘ Batch.pending := funext fun b => pending_unlink b id
    rw [List.map_map, hp, ← List.map_map, (ht h).2, List.map_flatMap, List.flatMap_map]
    congr 1
    exact funext fun f => (locals_unlink id h f).symm

theorem WakesOne.not_withdrawn {evs : Half → List LotEvent} (hw : WakesOne s t evs) (h : Half) (id : ℕ) :
    .withdrawn id ∉ evs h := by
  cases hw with
  | none ht => nofun
  | @one k a b ha hp ht hwoken =>
    by_cases hh : h = a.half
    · subst hh
      rw [Function.update_self]
      simp
    · rw [Function.update_of_ne hh]
      nofun

/-- Who is resumed between `u` and `t` is who is resumed between `s` and `t`. -/
theorem resumed_of_wakes {evs : Half → List LotEvent} (hw : WakesOne u t evs)
    (hold : ∀ id a, u.awaiters.lookup id = some a → a.phase = .parked →
      s.awaiters.lookup id = some a)
    (hnew : ∀ id a b, s.awaiters.lookup id = some a → a.phase = .parked →
      u.awaiters.lookup id = some b → b.phase ≠ .woken) (h : Half) (id : ℕ) :
    .resumed id ∈ evs h ↔ Resumed s t h id := by
  cases hw with
  | none ht =>
    refine ⟨nofun, ?_⟩
    rintro ⟨a, b, ha, -, hp, hb, hwoken⟩
    exact absurd hwoken (hnew id a b ha hp (ht ▸ hb))
  | @one k a b ha hp ht hwoken =>
    constructor
    · intro hid
      by_cases hh : h = a.half
      · subst hh
        rw [Function.update_self] at hid
        cases List.mem_singleton.1 hid
        exact ⟨a, b, hold id a ha hp, rfl, hp, by rw [ht]; exact AList.lookup_insert _, hwoken⟩
      · rw [Function.update_of_ne hh] at hid
        cases hid
    · rintro ⟨a', b', ha', rfl, hp', hb', hwoken'⟩
      rw [ht, lookup_insert_eq] at hb'
      split_ifs at hb' with hk
      · subst hk
        rw [hold id a ha hp] at ha'
        cases ha'
        rw [Function.update_self]
        exact List.mem_singleton_self _
      · exact absurd hwoken' (hnew id a' b' ha' hp' hb')

/-- The lots go on with a step of the channel: they begin the calls that the channel begins, resume whom
the channel resumes, and lose whom the channel cancels or destroys. -/
structure Observes (s : State T) (act : Action T) (t : State T) (L : Half → Lot)
    (evs : Half → List LotEvent) (L' : Half → Lot) : Prop where
  tracks : Tracks t L'
  moves : Moves L (fun h => begun s act h ++ evs h) L'
  resumed : ∀ h id, .resumed id ∈ evs h ↔ Resumed s t h id
  withdrawn : ∀ h id, .withdrawn id ∈ evs h → act = .awaitCancel id ∨ act = .destroy id

/-- There are lots that do so. -/
def Observable (s : State T) (act : Action T) (t : State T) (L : Half → Lot) : Prop :=
  ∃ evs L', Observes s act t L evs L'

variable {act : Action T}

theorem Follows.observable (hf : Follows s t L (begun s act)) : Observable s act t L := by
  obtain ⟨evs, L', hm, ht, hw⟩ := hf
  refine ⟨evs, L', ht, hm, resumed_of_wakes hw (fun _ _ ha _ => ha) ?_,
    fun h id hm => absurd hm (hw.not_withdrawn h id)⟩
  intro id a b ha hp hb
  rw [ha] at hb
  cases hb
  rw [hp]
  nofun

/-- The record of an awaiter that is not suspended is replaced, and a function follows. -/
theorem Follows.observable_of_insert {k : ℕ} {a c : Awaiter T} (hf : Follows u t L (begun s act))
    (ha : s.awaiters.lookup k = some a) (hp : a.phase ≠ .parked)
    (hu : u.awaiters = s.awaiters.insert k c) (hc : c.phase ≠ .parked) : Observable s act t L := by
  obtain ⟨evs, L', hm, ht, hw⟩ := hf
  refine ⟨evs, L', ht, hm, resumed_of_wakes hw ?_ ?_,
    fun h id hm => absurd hm (hw.not_withdrawn h id)⟩
  · intro i b hb hpark
    rw [hu, lookup_insert_eq] at hb
    split_ifs at hb
    · cases hb
      exact absurd hpark hc
    · exact hb
  · intro i b b' hb hpark hb'
    rw [hu, lookup_insert_eq] at hb'
    split_ifs at hb' with hi
    · rw [hi, ha] at hb
      cases hb
      exact absurd hpark hp
    · rw [hb] at hb'
      cases hb'
      rw [hpark]
      nofun

/-- A record is replaced by one that is not woken. -/
theorem not_resumed_insert {k : ℕ} {c : Awaiter T} (hc : c.phase ≠ .woken)
    (ht : t.awaiters = s.awaiters.insert k c) (h : Half) (id : ℕ) : ¬ Resumed s t h id := by
  rintro ⟨a, b, ha, -, hp, hb, hwoken⟩
  rw [ht, lookup_insert_eq] at hb
  split_ifs at hb
  · cases hb
    exact hc hwoken
  · rw [ha] at hb
    cases hb
    rw [hp] at hwoken
    cases hwoken

/-- Nothing happens to the suspended awaiters. -/
theorem observable_quiet {L' : Half → Lot} (ht : Tracks t L') (hm : Moves L nothing L')
    (hact : begun s act = nothing) (hno : ∀ h id, ¬ Resumed s t h id) : Observable s act t L := by
  refine ⟨nothing, L', ht, ?_, fun h id => ⟨nofun, fun hr => (hno h id hr).elim⟩, nofun⟩
  rw [hact]
  exact hm

theorem observable_newAwaiter (ht : Tracks s L) (args : Recv ⊕ Send T)
    (hact : begun s act = nothing) : Observable s act (s.newAwaiter args) L := by
  obtain ⟨a, rfl, ⟨-, -, he⟩ | ⟨-, he⟩⟩ := newAwaiter_cases s args
  · rw [he]
    exact observable_quiet ht (.refl L) hact
      (not_resumed_insert (c := ⟨args, true, .constructed⟩) nofun rfl)
  · rw [he]
    exact observable_quiet ht (.refl L) hact
      (not_resumed_insert (c := ⟨args, false, .constructed⟩) nofun rfl)

/-- Whoever is in a lot is in the lists of the channel. -/
theorem mem_waiting_of_tracks {id : ℕ} (ht : Tracks s L) (hm : id ∈ (L h).lists.all) :
    id ∈ s.waiting h := by
  rcases mem_all.1 hm with ⟨b, hb, hp⟩ | hw
  · have hbp := List.mem_map_of_mem (f := Batch.pending) hb
    rw [(ht h).2, List.mem_flatMap] at hbp
    obtain ⟨f, hf, hloc⟩ := hbp
    refine List.mem_append_right _ (List.mem_flatMap.2 ⟨f, hf, ?_⟩)
    cases f with
    | wake h' => cases hloc
    | unpark h' rest =>
      simp only [Frame.locals] at hloc
      simp only [Frame.waiting]
      split_ifs at hloc ⊢
      · rwa [List.mem_singleton.1 hloc] at hp
      · cases hloc
  · rw [(ht h).1] at hw
    exact List.mem_append_left _ hw

theorem observable_awaitSuspend (hi : Inv limit s) (ht : Tracks s L) {id : ℕ} {a : Awaiter T}
    (ha : s.awaiters.lookup id = some a) (hs : s.awaitSuspend id a = .ok t) :
    Observable s (.awaitSuspend id) t L := by
  obtain ⟨hph, -, -, -, ⟨-, rfl⟩ | ⟨-, rfl⟩⟩ := awaitSuspend_cases hs
  · have hf : Follows (s.claim id { a with phase := .woken })
        (s.claim id { a with phase := .woken }) L nothing := ⟨nothing, L, .refl L, ht, .none rfl⟩
    exact hf.observable_of_insert ha (by rw [hph]; nofun) rfl nofun
  · have hnot := hi.linked.notMem_of_phase ha (by rw [hph]; nofun)
    have hout : id ∉ (L a.half).lists.all := fun hm => hnot a.half (mem_waiting_of_tracks ht hm)
    have hm := (Moves.refl L).quiet (.park hout)
    refine observable_quiet (Tracks.update (l := { L a.half with lists := (L a.half).lists.put id })
      ?_ (ht a.half).2 fun h' hh => ?_) hm rfl
      (not_resumed_insert (c := { a with phase := .parked }) nofun rfl)
    · show (L a.half).lists.waiting ++ [id] = Function.update s.parked a.half _ a.half
      rw [(ht a.half).1, Function.update_self]
    · exact ⟨(ht h').1.trans (Function.update_of_ne hh _ _).symm, (ht h').2⟩

theorem observable_awaitResume (hi : Inv limit s) (ht : Tracks s L) {id : ℕ} {a : Awaiter T}
    (ha : s.awaiters.lookup id = some a) (hs : s.awaitResume id a = .ok t) :
    Observable s (.awaitResume id) t L := by
  obtain ⟨hph, -, htr⟩ := awaitResume_cases hs
  have hp : a.phase ≠ .parked := by
    rcases hph with h | h
    · rw [h]; nofun
    · rw [h]; nofun
  have hok : ({ a with claimed := false, phase := .done } : Awaiter T).ClaimOk := nofun
  have hl := hi.linked.replace (hi.linked.lt ha) (hi.linked.notMem_of_phase ha hp) hok
  have hf : Follows (s.setAwaiter id { a with claimed := false, phase := .done }) t L nothing :=
    follows_transfer hl ht htr
  exact hf.observable_of_insert ha hp rfl nofun

theorem observes_awaitCancel (ht : Tracks s L) (id : ℕ) (a : Awaiter T) :
    Observable s (.awaitCancel id)
      (((s.unlink id).setAwaiter id { a with phase := .cancelled }).record (.cancelled id)) L := by
  obtain ⟨L', hm, ht'⟩ := moves_unlink ht id
  refine ⟨_, L', ht', hm, fun h i => ⟨fun hr => ?_, fun hr => ?_⟩, fun h i hw => ?_⟩
  · simp at hr
  · exact (not_resumed_insert (c := { a with phase := .cancelled }) nofun rfl h i hr).elim
  · cases List.mem_singleton.1 hw
    exact .inl rfl

theorem observable_destroy (hi : Inv limit s) (ht : Tracks s L) {id : ℕ} {a : Awaiter T}
    (ha : s.awaiters.lookup id = some a) (hs : s.destroy id a = .ok t) :
    Observable s (.destroy id) t L := by
  obtain ⟨hl, -, -⟩ := hi.destroyed ha
  obtain ⟨L₁, hm, ht₁⟩ := moves_unlink ht id
  have haw : (s.destroyed id a).awaiters = s.awaiters.erase id := by
    rcases destroyed_cases s id a with he | ⟨-, he⟩
    · rw [he]; rfl
    · rw [he]; rfl
  have htd : Tracks (s.destroyed id a) L₁ := by
    rcases destroyed_cases s id a with he | ⟨-, he⟩
    · rw [he]; exact ht₁
    · rw [he]; exact ht₁
  have hf : Follows (s.destroyed id a) t L₁ nothing := by
    rcases destroy_cases hs with ⟨-, rfl⟩ | ⟨-, hw⟩
    · exact ⟨nothing, L₁, .refl L₁, htd, .none rfl⟩
    · have hf : Follows ((s.destroyed id a).settle a.half 1) t L₁ nothing :=
        follows_wakeAwaiters hl htd hw
      exact hf.congr rfl
  obtain ⟨evs, L', hm', ht', hw⟩ := hf
  have hm' : Moves L₁ evs L' := hm'
  have hres := resumed_of_wakes (s := s) hw
    (fun i b hb _ => by rw [haw] at hb; exact lookup_of_lookup_erase hb) (fun i b b' hb hp hb' => by
      rw [haw] at hb'
      rw [lookup_of_lookup_erase hb'] at hb
      cases hb
      rw [hp]
      nofun)
  refine ⟨fun h => .withdrawn id :: evs h, L', ht', hm.trans hm', fun h i => ?_, fun h i hmem => ?_⟩
  · rw [← hres h i]
    simp
  · rcases List.mem_cons.1 hmem with hmem | hmem
    · cases hmem
      exact .inr rfl
    · exact absurd hmem (hw.not_withdrawn h i)

/-- The step lemma: the lots can follow each step of the channel. -/
theorem observable_step (hi : Inv limit s) (ht : Tracks s L) (hs : step s act = .ok t) :
    Observable s act t L := by
  cases act with
  | newReceive r => cases hs; exact observable_newAwaiter ht _ rfl
  | newSend w => cases hs; exact observable_newAwaiter ht _ rfl
  | awaitSuspend id =>
    obtain ⟨a, ha, hs⟩ := withAwaiter_eq_ok hs
    exact observable_awaitSuspend hi ht ha hs
  | awaitResume id =>
    obtain ⟨a, ha, hs⟩ := withAwaiter_eq_ok hs
    exact observable_awaitResume hi ht ha hs
  | awaitCancel id =>
    obtain ⟨a, ha, hs⟩ := withAwaiter_eq_ok hs
    obtain ⟨-, rfl⟩ := awaitCancel_cases hs
    exact observes_awaitCancel ht id a
  | destroy id =>
    obtain ⟨a, ha, hs⟩ := withAwaiter_eq_ok hs
    exact observable_destroy hi ht ha hs
  | tryReceive r =>
    have hs : s.transfer none 0 (.inl r) = .ok t := hs
    exact (follows_transfer hi.linked ht hs).observable
  | trySend w =>
    have hs : s.transfer none 0 (.inr w) = .ok t := hs
    exact (follows_transfer hi.linked ht hs).observable
  | close => exact (follows_close hi.linked ht hs).observable
  | resumeReturns => exact (follows_resumeReturns hi.linked ht hs).observable

/-! ### What happens at the lots -/

/-- The calls of `unparkAll()` that have begun, each with those who were parked then. -/
def callsIn (trace : List LotEvent) : List (List ℕ) :=
  trace.filterMap fun e => match e with
    | .called ids => some ids
    | _ => none

/-- What holds of the calls of `unparkAll()` of a lot. -/
structure Lot.Exact (l : Lot) (trace : List LotEvent) : Prop where
  /-- Each call has found those who were parked when it began. -/
  found : (l.calls.map Batch.snapshot).Perm (callsIn trace)
  /-- It resumes them in their order, each of them once, but for those that leave before their turn,
  which are cancelled or destroyed. -/
  calls : ∀ b ∈ l.calls, b.Ordered ∧
    (∀ id ∈ b.left, .withdrawn id ∈ trace) ∧ ∀ id ∈ b.served, .resumed id ∈ trace
  ended : ∀ b ∈ l.finished, b.pending = []
  /-- Its loop comes to an end, whatever those that it resumes do. -/
  bounded : ∀ b ∈ l.lists.batches, b.served.length + b.pending.length ≤ b.snapshot.length

/-- What has happened at a lot that keeps its lists in order. -/
structure Lot.Traced (l : Lot) (trace : List LotEvent) : Prop where
  sound : l.Sound
  found : (l.calls.map Batch.snapshot).Perm (callsIn trace)
  accounted : Accounted l.calls (fun id => .withdrawn id ∈ trace) fun id => .resumed id ∈ trace

theorem Lot.Traced.exact {l : Lot} {trace : List LotEvent} (h : l.Traced trace) : l.Exact trace := by
  refine ⟨h.found, fun b hb => ⟨?_, h.accounted.left b hb, h.accounted.served b hb⟩,
    fun b hb => (h.sound.ended b hb).2, fun b hb => (h.sound.lists.ordered b hb).length_le⟩
  rcases List.mem_append.1 hb with hb | hb
  · exact (h.sound.ended b hb).1
  · exact h.sound.lists.ordered b hb

theorem Lot.Traced.step {l l' : Lot} {trace evs : List LotEvent} (h : l.Traced trace)
    (hs : l.Step evs l') : l'.Traced (trace ++ evs) := by
  have hsound := h.sound.step hs
  have hacc : Accounted l.calls (fun id => .withdrawn id ∈ trace ++ evs)
      fun id => .resumed id ∈ trace ++ evs :=
    h.accounted.mono (fun _ hm => List.mem_append_left _ hm) fun _ hm => List.mem_append_left _ hm
  have hfound := h.found
  have hev : ∀ e, e ∈ trace ++ [e] := fun e => List.mem_append_right _ (List.mem_singleton_self e)
  simp only [Lot.calls] at hacc hfound
  cases hs with
  | park hi => exact ⟨hsound, by simpa [Lot.calls, Lists.put] using hfound, hacc⟩
  | withdraw i =>
    refine ⟨hsound, ?_, hacc.unlink (hev _)⟩
    have hsnap : (Batch.snapshot ∘ fun b : Batch ℕ Unit => b.unlink i) = Batch.snapshot :=
      funext fun b => snapshot_unlink b i
    simpa [Lot.calls, Lists.unlink, callsIn, hsnap] using hfound
  | unparkOne hw => exact ⟨hsound, by simpa [Lot.calls, callsIn] using hfound, hacc⟩
  | start =>
    refine ⟨hsound, ?_, hacc.start () _⟩
    -- The innermost call comes first in the lists, and last in the trace.
    have hmid : (l.finished.map Batch.snapshot ++ l.lists.waiting ::
        l.lists.batches.map Batch.snapshot).Perm (callsIn trace ++ [l.lists.waiting]) := by
      refine (List.perm_middle.trans ?_).trans (List.perm_append_singleton _ _).symm
      rw [← List.map_append]
      exact hfound.cons _
    simpa [Lot.calls, Lists.start, callsIn] using hmid
  | unpark hb hp =>
    rw [hb] at hacc hfound
    exact ⟨hsound, by simpa [Lot.calls, callsIn, Batch.serve] using hfound, hacc.serve (hev _) _⟩
  | finish hb hp =>
    rw [hb] at hacc hfound
    exact ⟨hsound, by simpa [Lot.calls] using hfound, hacc.finish⟩

theorem Lot.Traced.steps {l l' : Lot} {trace evs : List LotEvent} (h : l.Traced trace)
    (hs : l.Steps evs l') : l'.Traced (trace ++ evs) := by
  induction hs with
  | refl => rwa [List.append_nil]
  | tail _ hs ih =>
    rw [← List.append_assoc]
    exact ih.step hs

/-- A run of a channel with the lots that observe it, and what happens at each of them. -/
inductive Watched (limit : Option ℕ) : State T → (Half → Lot) → (Half → List LotEvent) → Prop
  | init : Watched limit (newChannel limit) (fun _ => ⟨⟨[], []⟩, []⟩) nothing
  | step {s t : State T} {act : Action T} {L L' : Half → Lot} {trace evs : Half → List LotEvent} :
      Watched limit s L trace → Channel.step s act = .ok t → Observes s act t L evs L' →
      Watched limit t L' fun h => trace h ++ (begun s act h ++ evs h)

theorem tracks_init (limit : Option ℕ) :
    Tracks (newChannel limit : State T) fun _ => ⟨⟨[], []⟩, []⟩ := by
  cases limit with
  | none => exact fun h => ⟨rfl, rfl⟩
  | some maxSize => exact fun h => ⟨rfl, rfl⟩

theorem Watched.tracks {trace : Half → List LotEvent} (h : Watched limit s L trace) :
    Tracks s L := by
  cases h with
  | init => exact tracks_init limit
  | step _ _ hobs => exact hobs.tracks

theorem Watched.traced {trace : Half → List LotEvent} (hw : Watched limit s L trace) (h : Half) :
    (L h).Traced (trace h) := by
  induction hw with
  | init => exact ⟨⟨.nil, nofun⟩, .nil, nofun, nofun⟩
  | step _ _ hobs ih => exact ih.steps (hobs.moves h)

/-- Every run can be watched. -/
theorem watched_of_reach (hr : Reach step anyAction (newChannel limit) s) :
    ∃ L trace, Watched limit s L trace := by
  induction hr with
  | refl => exact ⟨_, _, .init⟩
  | tail hr _ hs ih =>
    obtain ⟨L, trace, hw⟩ := ih
    obtain ⟨evs, L', hobs⟩ := observable_step (inv_of_reach hr) hw.tracks hs
    exact ⟨L', _, hw.step hs hobs⟩

/-! ### Returning -/

/-- How many times `resume()` has still to return in a loop, if nobody else is woken. -/
def Frame.due : Frame → ℕ
  | .wake _ => 1
  | .unpark _ rest => rest.length + 1

/-- How many times `resume()` has still to return, if nothing else happens. -/
def State.due (s : State T) : ℕ :=
  (s.frames.map Frame.due).sum + (s.parked .read).length + (s.parked .write).length

theorem due_wakeAwaiters (hs : s.wakeAwaiters h = .ok t) : t.due ≤ s.due := by
  rcases wakeAwaiters_cases hs with ⟨rfl, -⟩ | ⟨id, rest, a, -, hp, -, -, rfl⟩
  · exact le_rfl
  · cases h <;> simp [State.due, State.woken, State.claim, Frame.due, hp] <;> omega

theorem due_unparkWriters {l : List ℕ} (hs : s.unparkWriters l = .ok t) :
    t.due ≤ s.due + l.length := by
  rcases unparkWriters_cases hs with ⟨rfl, rfl⟩ | ⟨id, rest, a, rfl, -, rfl⟩
  · simp
  · simp only [State.due, State.unparked, State.setAwaiter, Frame.due, List.map_cons, List.sum_cons,
      List.length_cons]
    omega

theorem due_unparkReaders {l : List ℕ} (hs : s.unparkReaders l = .ok t) :
    t.due ≤ s.due + l.length := by
  rcases unparkReaders_cases hs with ⟨rfl, hw⟩ | ⟨id, rest, a, rfl, -, rfl⟩
  · -- the writers leave the wait list for the local one
    have hle := due_unparkWriters hw
    simp only [State.due, State.writersDetached, Function.update_self, List.length_nil,
      ne_eq, reduceCtorEq, not_false_eq_true, Function.update_of_ne] at hle ⊢
    omega
  · simp only [State.due, State.unparked, State.setAwaiter, Frame.due, List.map_cons, List.sum_cons,
      List.length_cons]
    omega

theorem unparkWriters_ok {l : List ℕ}
    (hl : Linked (s.enter (.unpark .write l)).waiting s.awaiters s.nextId) :
    ∃ t, s.unparkWriters l = .ok t := by
  cases l with
  | nil => exact ⟨s, rfl⟩
  | cons id rest =>
    obtain ⟨a, ha, -⟩ := hl.waits .write id (by simp [State.enter, State.waiting, Frame.waiting])
    simp only [State.unparkWriters, ha]
    exact ⟨_, rfl⟩

theorem unparkReaders_ok {l : List ℕ}
    (hl : Linked (s.enter (.unpark .read l)).waiting s.awaiters s.nextId) :
    ∃ t, s.unparkReaders l = .ok t := by
  cases l with
  | nil =>
    refine unparkWriters_ok (s := s.writersDetached) (hl.sublist fun h => ?_)
    cases h <;> simp [State.enter, State.writersDetached, State.waiting, Frame.waiting]
  | cons id rest =>
    obtain ⟨a, ha, -⟩ := hl.waits .read id (by simp [State.enter, State.waiting, Frame.waiting])
    simp only [State.unparkReaders, ha]
    exact ⟨_, rfl⟩

/-- While a loop is in progress, a `resume()` can return, and there is one less to return then. -/
theorem exists_return (hi : Inv limit s) (hbusy : s.frames ≠ []) :
    ∃ t, step s .resumeReturns = .ok t ∧ t.due < s.due := by
  obtain ⟨f, fs, hf⟩ := List.exists_cons_of_ne_nil hbusy
  have hdue : s.due = ({ s with frames := fs } : State T).due + f.due := by
    simp only [State.due, hf, List.map_cons, List.sum_cons]
    omega
  have hl := hi.linked
  rw [← enter_frames hf] at hl
  simp only [Channel.step, State.resumeReturns, hf]
  cases f with
  | wake h =>
    obtain ⟨t, ht⟩ := wakeAwaiters_ok (s := { s with frames := fs }) (h := h) (hl.sublist fun h' => by
      simp [State.enter, State.waiting, Frame.waiting])
    have hle := due_wakeAwaiters ht
    exact ⟨t, ht, by rw [hdue, Frame.due]; omega⟩
  | unpark h rest =>
    cases h with
    | read =>
      obtain ⟨t, ht⟩ := unparkReaders_ok hl
      have hle := due_unparkReaders ht
      exact ⟨t, ht, by rw [hdue, Frame.due]; omega⟩
    | write =>
      obtain ⟨t, ht⟩ := unparkWriters_ok hl
      have hle := due_unparkWriters ht
      exact ⟨t, ht, by rw [hdue, Frame.due]; omega⟩

/-- If each `resume()` returns, all loops come to an end. -/
theorem exists_returns (hi : Inv limit s) :
    ∃ as t, (∀ a ∈ as, a = .resumeReturns) ∧ exec step s as = .ok t ∧ t.frames = [] := by
  refine exists_run (I := Inv limit) (μ := State.due) hi fun s hi hbusy => ?_
  obtain ⟨t, hs, hlt⟩ := exists_return hi hbusy
  exact ⟨.resumeReturns, t, rfl, hs, hi.step hs, hlt⟩

/-! ### What `unparkAll()` does -/

/-- In every run of a parking lot, of an event and of a channel, every call of `unparkAll()` resumes
those who were parked when it began, in their order and each of them once, but for those that have been
cancelled or destroyed before their turn, and returns if each `resume()` does. -/
theorem unparkAll_exact_everywhere (T : Type*) :
    (∀ (self : ParkingLot.Self) (s : ParkingLot.State),
      Reach ParkingLot.step anyAction (ParkingLot.State.init self) s → ParkingLot.Exact s) ∧
    ∀ (limit : Option ℕ) (s : State T), Reach step anyAction (newChannel limit) s →
      (∃ L trace, Watched limit s L trace) ∧
      (∀ L trace, Watched limit s L trace → ∀ h, (L h).Exact (trace h)) ∧
      ∃ as t, (∀ a ∈ as, a = .resumeReturns) ∧ exec step s as = .ok t ∧ t.frames = [] :=
  ⟨fun self _ hr => ParkingLot.unparkAll_exact self hr, fun _ _ hr =>
    ⟨watched_of_reach hr, fun _ _ hw h => (hw.traced h).exact, exists_returns (inv_of_reach hr)⟩⟩

/-- The first of two awaiters is resumed, and another one parks before the second one is. -/
def parkedAgain : List ParkingLot.Action :=
  [.newAwaiter, .newAwaiter, .await 0, .await 1, .unparkAll, .newAwaiter, .await 2, .resumeReturns,
    .resumeReturns]

/-- The first of three readers is resumed, and destroys the second one. -/
def readersClosed : List (Action ℕ) :=
  [.newReceive .one, .newReceive .one, .newReceive .one, .awaitSuspend 0, .awaitSuspend 1,
    .awaitSuspend 2, .close, .destroy 1, .resumeReturns]

theorem unparkAll_exact_everywhere_parkedAgain :
    (∃ s, exec ParkingLot.step (ParkingLot.State.init .parkingLot) parkedAgain = .ok s ∧
      s.finished.map Batch.served = [[0, 1]] ∧ s.lists.waiting = [2] ∧ ParkingLot.Exact s) ∧
    ∃ s, exec step (newChannel none) readersClosed = .ok s ∧ s.frames = [.unpark .read []] ∧
      ∀ L trace, Watched none s L trace → ∀ h, (L h).Exact (trace h) := by
  obtain ⟨hlot, hchannel⟩ := unparkAll_exact_everywhere ℕ
  refine ⟨⟨_, rfl, rfl, rfl, hlot .parkingLot _ ?_⟩, ⟨_, rfl, rfl, ?_⟩⟩
  · exact reach_of_run (l := parkedAgain) rfl
  · exact (hchannel none _ (reach_of_run (l := readersClosed) rfl)).2.1

end Corral.Channel
