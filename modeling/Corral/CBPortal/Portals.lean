import Corral.CBPortal.Handles

/-!
# `CBPortal`: every step keeps the portals and the tasks together

* `Sound.coAwait`: a task awaits a portal;
* `Sound.initiateReturns`, `Sound.initiateThrows`: the initiate function ends;
* `Sound.takeResult`: the task takes its result;
* `sound_of_reach`: the run lemma.
-/

namespace Corral.CBPortal

open ActionMachine
open Executor (ListRef)

variable {E L P T V : Type*} [DecidableEq P] [DecidableEq T] [DecidableEq E] [DecidableEq L]
  {loop : E → L} {ex : T → E} {s t u : State E P T V} {x y : T} {p q : P} {v : V}
  {aw : Pending P V} {a : Await P}

/-! ### co_await -/

/-- Nobody waits on these portals. -/
def State.free (s : State E P T V) (a : Await P) : Prop :=
  ∀ p ∈ a.portals, ∀ y aw, s.status y = .waiting aw → p ∉ aw.await.portals

omit [DecidableEq T] [DecidableEq E] [DecidableEq L] in
theorem Sound.free (hs : Sound ex s) (hb : ¬ ∃ p ∈ a.portals, s.busy p = true) : s.free a := by
  intro p hp y aw hy hmem
  refine hb ⟨p, hp, ?_⟩
  have hpar := ((hs.waits y aw hy).2.2 p hmem).1
  simp only [State.busy, hpar, State.waitsOn, owner_handle, hy]
  exact decide_eq_true hmem

omit [DecidableEq P] [DecidableEq T] [DecidableEq E] [DecidableEq L] in
theorem firstReady_eq_none (h : s.firstReady a = none) : ∀ p ∈ a.portals, s.value p = none := by
  intro p hp
  have hnone := List.findSome?_eq_none_iff.1 h p hp
  simpa using hnone

omit [DecidableEq P] [DecidableEq T] [DecidableEq E] [DecidableEq L] in
theorem firstReady_eq_some (h : s.firstReady a = some (p, v)) : p ∈ a.portals ∧ s.value p = some v := by
  obtain ⟨q, hq, hv⟩ := List.exists_of_findSome?_eq_some h
  cases hval : s.value q with
  | none => simp [hval] at hv
  | some w =>
    simp only [hval, Option.map_some, Option.some.injEq, Prod.mk.injEq] at hv
    obtain ⟨rfl, rfl⟩ := hv
    exact ⟨hq, hval⟩

/-- What a co_await can do. -/
inductive CoAwaits (ex : T → E) (s : State E P T V) (x : T) (a : Await P) : State E P T V → Prop
  | skipped : a.proxy ≠ some .external → s.requested x = true → CoAwaits ex s x a (s.skip x a)
  | ready {p : P} {v : V} : a.proxy = none → s.firstReady a = some (p, v) →
      CoAwaits ex s x a (s.receive p v)
  | suspended : a.proxy = none → (∀ p ∈ a.portals, s.value p = none) →
      CoAwaits ex s x a (s.suspend ex x a false)
  | external : a.proxy = some .external → (∀ p ∈ a.portals, s.value p = none) →
      CoAwaits ex s x a (((s.setProxyStatus a.awaiter.first
        (if s.requested x then .cancelPending else .scheduled)).suspend ex x a (s.requested x)).initiate
          x a .external (s.awaits x) (s.requested x))
  | inline {c : Bool} : a.proxy = some (.inline c) → s.requested x = false →
      (∀ p ∈ a.portals, s.value p = none) → (∀ p ∈ a.portals, s.callback p = false) →
      CoAwaits ex s x a (((s.setProxyStatus a.awaiter.first .scheduled).suspend ex x a false).initiate
          x a (.inline c) (s.awaits x) false)

omit [DecidableEq E] [DecidableEq L] in
theorem coAwait_cases (hs : Sound ex s) (h : s.coAwait ex x a = .ok t) :
    s.free a ∧ CoAwaits ex s x a t := by
  unfold State.coAwait at h
  by_cases hb : (∃ p ∈ a.portals, s.busy p = true) ∨ ¬ a.portals.Nodup
  · rw [if_pos hb] at h
    cases h
  rw [if_neg hb] at h
  refine ⟨hs.free fun hbusy => hb (.inl hbusy), ?_⟩
  rcases hp : a.proxy with _ | _ | c
  all_goals simp only [hp] at h
  · by_cases hr : s.requested x = true
    · rw [if_pos hr] at h
      cases h
      exact .skipped (by rw [hp]; nofun) hr
    · rw [if_neg hr] at h
      cases hf : s.firstReady a with
      | none =>
        simp only [hf] at h
        cases h
        exact .suspended hp (firstReady_eq_none hf)
      | some pv =>
        simp only [hf] at h
        cases h
        exact .ready hp hf
  · have hready : (s.setProxyStatus a.awaiter.first
        (if s.requested x then .cancelPending else .scheduled)).firstReady a = s.firstReady a := rfl
    rw [hready] at h
    by_cases hf : (s.firstReady a).isSome = true
    · rw [if_pos hf] at h
      cases h
    · rw [if_neg hf] at h
      cases h
      exact .external hp (firstReady_eq_none (by simpa using hf))
  · by_cases hfresh : ∃ p ∈ a.portals, s.fresh p = false
    · rw [if_pos hfresh] at h
      cases h
    rw [if_neg hfresh] at h
    have hall : ∀ p ∈ a.portals, s.value p = none ∧ s.callback p = false := by
      intro p hpm
      by_contra hnot
      refine hfresh ⟨p, hpm, ?_⟩
      by_contra hf
      simp only [State.fresh, Bool.not_eq_false, Bool.and_eq_true] at hf
      exact hnot ⟨by simpa using hf.1.1, by simpa using hf.2⟩
    by_cases hr : s.requested x = true
    · rw [if_pos hr] at h
      cases h
      exact .skipped (by rw [hp]; nofun) hr
    · rw [if_neg hr] at h
      cases h
      exact .inline hp (by simpa using hr) (fun p hpm => (hall p hpm).1) fun p hpm => (hall p hpm).2

omit [DecidableEq E] [DecidableEq L] in
/-- A co_await gets the next number of the task. -/
theorem Sound.nextNumber (hs : Sound ex s) (hc : Calm s) :
    Sound ex { s with awaits := Function.update s.awaits x (s.awaits x + 1) } := by
  have hle : ∀ y, s.awaits y ≤ Function.update s.awaits x (s.awaits x + 1) y := by
    intro y
    by_cases hy : y = x
    · subst hy
      rw [Function.update_self]
      exact Nat.le_succ _
    · rw [Function.update_of_ne hy]
  refine hs.of_calm hc hc hs.jobs hs.parents (fun p y w hp => ?_) (fun y aw hy => ?_) fun _ => id
  · obtain ⟨h₁, h₂⟩ := hs.children p y w hp
    exact ⟨h₁.trans_le (hle y), h₂⟩
  · obtain ⟨h₁, h₂⟩ := hs.waits y aw hy
    exact ⟨h₁.trans_le (hle y), h₂⟩

omit [DecidableEq E] [DecidableEq L] in
theorem Sound.skip (hs : Sound ex s) (hc : Calm s) (hfree : s.free a) : Sound ex (s.skip x a) := by
  have hu : Sound ex { s with awaits := Function.update s.awaits x (s.awaits x + 1) } :=
    hs.nextNumber hc
  have hended : Sound ex (State.setStatus { s with
      awaits := Function.update s.awaits x (s.awaits x + 1) } x .ended) := hu.setStatus hc rfl
  refine (hended.destroyProxy (hc.update rfl rfl) fun p hp y aw hy => ?_).record _ _ _
  exact hfree p hp y aw (waiting_of_update rfl rfl hy).2

omit [DecidableEq P] [DecidableEq T] [DecidableEq E] [DecidableEq L] in
/-- The handle that a portal gets. -/
theorem handle_eq_child {n w : ℕ} (h : a.handle x n = .child y w) :
    y = x ∧ w = n ∧ ∃ q qs, a.awaiter = .anyOf q qs := by
  unfold Await.handle at h
  cases haw : a.awaiter with
  | portal q => simp [haw] at h
  | anyOf q qs =>
    simp only [haw, Handle.child.injEq] at h
    exact ⟨h.1.symm, h.2.symm, q, qs, rfl⟩

omit [DecidableEq E] [DecidableEq L] in
theorem Sound.suspend (hs : Sound ex s) (hc : Calm s) (hfree : s.free a)
    (hval : ∀ p ∈ a.portals, s.value p = none) (cancelling : Bool) :
    Sound ex (s.suspend ex x a cancelling) := by
  have hcu : Calm (s.setStatus x (.waiting ⟨s.awaits x, a, none, cancelling⟩)) := hc.setStatus nofun
  have hself : (s.suspend ex x a cancelling).status x = .waiting ⟨s.awaits x, a, none, cancelling⟩ :=
    Function.update_self _ _ _
  have hoth : ∀ y, y ≠ x → (s.suspend ex x a cancelling).status y = s.status y :=
    fun y hy => Function.update_of_ne hy _ _
  have haws : (s.suspend ex x a cancelling).awaits x = s.awaits x + 1 := Function.update_self _ _ _
  have haw' : ∀ y, y ≠ x → (s.suspend ex x a cancelling).awaits y = s.awaits y :=
    fun y hy => Function.update_of_ne hy _ _
  have hin : ∀ p ∈ a.portals, (s.suspend ex x a cancelling).parent p = some (a.handle x (s.awaits x)) :=
    fun p hp => if_pos hp
  have hout : ∀ p, p ∉ a.portals → (s.suspend ex x a cancelling).parent p = s.parent p :=
    fun p hp => if_neg hp
  refine hs.of_calm hc hcu hs.jobs (fun p h hp => ?_) (fun p y w hp => ?_) (fun y aw hy => ?_)
    fun _ => id
  · by_cases hm : p ∈ a.portals
    · rw [hin p hm] at hp
      cases hp
      rw [owner_handle]
      exact if_pos hm
    · rw [hout p hm] at hp
      exact (if_neg hm).trans (hs.parents p h hp)
  · by_cases hm : p ∈ a.portals
    · rw [hin p hm] at hp
      obtain ⟨rfl, rfl, hany⟩ := handle_eq_child (Option.some.inj hp)
      refine ⟨by rw [haws]; exact Nat.lt_succ_self _, fun aw hy hn => ?_⟩
      rw [hself] at hy
      cases hy
      exact ⟨hm, hany⟩
    · rw [hout p hm] at hp
      obtain ⟨h₁, h₂⟩ := hs.children p y w hp
      by_cases hyx : y = x
      · subst hyx
        refine ⟨by rw [haws]; omega, fun aw hy hn => ?_⟩
        rw [hself] at hy
        cases hy
        exact absurd h₁ (by simp only at hn; omega)
      · rw [haw' y hyx]
        exact ⟨h₁, fun aw hy => h₂ aw ((hoth y hyx).symm.trans hy)⟩
  · by_cases hyx : y = x
    · subst hyx
      rw [hself] at hy
      cases hy
      exact ⟨by rw [haws]; exact Nat.lt_succ_self _, rfl, fun p hp => ⟨hin p hp, hval p hp⟩⟩
    · rw [hoth y hyx] at hy
      obtain ⟨h₁, h₂, h₃⟩ := hs.waits y aw hy
      rw [haw' y hyx]
      refine ⟨h₁, h₂, fun p hp => ?_⟩
      rw [hout p fun hm => hfree p hm y aw hy hp]
      exact h₃ p hp

omit [DecidableEq E] [DecidableEq L] in
theorem Sound.coAwait (hs : Sound ex s) (hc : Calm s) (h : s.coAwait ex x a = .ok t) :
    Sound ex t := by
  obtain ⟨hfree, h⟩ := coAwait_cases hs h
  cases h with
  | skipped hp hr => exact hs.skip hc hfree
  | @ready p v hp hf =>
    obtain ⟨hm, hv⟩ := firstReady_eq_some hf
    refine hs.change hc hc hs.jobs rfl rfl (fun _ => .inl rfl)
      (fun y aw hy => ⟨hy, fun q hq => ⟨rfl, Function.update_of_ne ?_ _ _⟩⟩) fun q hq => ?_
    · rintro rfl
      exact hfree q hm y aw hy hq
    · by_cases hqp : q = p
      · subst hqp
        simpa [State.receive, hv] using hq
      · simpa [State.receive, hqp] using hq
  | suspended hp hv => exact hs.suspend hc hfree hv false
  | external hp hv =>
    have hu : Sound ex (s.setProxyStatus a.awaiter.first
        (if s.requested x then .cancelPending else .scheduled)) :=
      hs.congr rfl rfl rfl rfl rfl rfl rfl rfl rfl
    exact (hu.suspend hc hfree hv _).congr rfl rfl rfl rfl rfl rfl rfl rfl rfl
  | inline hp hr hv hcb =>
    have hu : Sound ex (s.setProxyStatus a.awaiter.first .scheduled) :=
      hs.congr rfl rfl rfl rfl rfl rfl rfl rfl rfl
    exact (hu.suspend hc hfree hv _).congr rfl rfl rfl rfl rfl rfl rfl rfl rfl

/-! ### The initiate function -/

omit [DecidableEq E] [DecidableEq L] in
theorem initiateReturns_cases [DecidableEq E] [DecidableEq L] (hc : Calm s)
    (h : s.initiateReturns loop ex = .ok t) :
    ∃ i rest, s.initiator = some (i, rest) ∧
      ((i.completed = true ∧
          t = { s.record i.task i.number .returned with initiating := rest }) ∨
        ∃ aw, i.completed = false ∧ s.status i.task = .waiting aw ∧ aw.number = i.number ∧
          ((s.proxyStatus aw.await.awaiter.first = .cancelPending ∧
              (s.parent aw.await.awaiter.first).isSome = true ∧
              (({ s.record i.task i.number .returned with initiating := rest } :
                State E P T V).setProxyStatus aw.await.awaiter.first .initiated).cancelInitiated
                  loop ex i.task aw = .ok t) ∨
            (¬ (s.proxyStatus aw.await.awaiter.first = .cancelPending ∧
                (s.parent aw.await.awaiter.first).isSome = true) ∧
              t = ({ s.record i.task i.number .returned with initiating := rest } :
                State E P T V).setProxyStatus aw.await.awaiter.first .initiated))) := by
  unfold State.initiateReturns at h
  cases hi : s.initiator with
  | none => simp [hi] at h
  | some ir =>
    obtain ⟨i, rest⟩ := ir
    simp only [hi] at h
    refine ⟨i, rest, rfl, ?_⟩
    cases hcomp : i.completed with
    | true =>
      simp only [hcomp, if_true] at h
      cases h
      exact .inl ⟨rfl, rfl⟩
    | false =>
      simp only [hcomp, Bool.false_eq_true, if_false] at h
      have hst : ({ s.record i.task i.number .returned with initiating := rest } :
        State E P T V).status = s.status := rfl
      rw [hst] at h
      cases hx : s.status i.task with
      | waiting aw =>
        simp only [hx] at h
        split_ifs at h with hn hw
        · exact .inr ⟨aw, rfl, rfl, hn, .inl ⟨hw.1, hw.2, h⟩⟩
        · cases h
          exact .inr ⟨aw, rfl, rfl, hn, .inr ⟨hw, rfl⟩⟩
      | ready aw =>
        cases aw with
        | none => simp [hx] at h
        | some aw => exact absurd hx (hc _ aw)
      | unstarted => simp [hx] at h
      | running => simp [hx] at h
      | elsewhere must => simp [hx] at h
      | ended => simp [hx] at h

theorem Sound.initiateReturns (hs : Sound ex s) (hc : Calm s)
    (h : s.initiateReturns loop ex = .ok t) : Sound ex t := by
  obtain ⟨i, rest, -, ⟨-, rfl⟩ | ⟨aw, -, hx, -, ⟨-, -, h⟩ | ⟨-, rfl⟩⟩⟩ := initiateReturns_cases hc h
  · exact hs.congr rfl rfl rfl rfl rfl rfl rfl rfl rfl
  · have hu : Sound ex (({ s.record i.task i.number .returned with initiating := rest } :
        State E P T V).setProxyStatus aw.await.awaiter.first .initiated) :=
      hs.congr rfl rfl rfl rfl rfl rfl rfl rfl rfl
    exact hu.cancelInitiated hc hx h
  · exact hs.congr rfl rfl rfl rfl rfl rfl rfl rfl rfl

omit [DecidableEq E] [DecidableEq L] in
theorem initiateThrows_cases (h : s.initiateThrows = .ok t) :
    ∃ i rest aw, s.initiator = some (i, rest) ∧ i.completed = false ∧
      s.status i.task = .waiting aw ∧ aw.number = i.number ∧
      t = ({ s.record i.task i.number .threw with
        initiating := rest
        status := Function.update s.status i.task .running
        requested := Function.update s.requested i.task i.requested } :
          State E P T V).destroyProxy aw.await := by
  unfold State.initiateThrows at h
  cases hi : s.initiator with
  | none => simp [hi] at h
  | some ir =>
    obtain ⟨i, rest⟩ := ir
    simp only [hi] at h
    cases hcomp : i.completed with
    | true => simp [hcomp] at h
    | false =>
      simp only [hcomp, Bool.false_eq_true, if_false] at h
      cases hx : s.status i.task with
      | waiting aw =>
        simp only [hx] at h
        split_ifs at h with hn
        cases h
        exact ⟨i, rest, aw, rfl, hcomp, hx, hn, rfl⟩
      | unstarted => simp [hx] at h
      | ready aw => simp [hx] at h
      | running => simp [hx] at h
      | elsewhere must => simp [hx] at h
      | ended => simp [hx] at h

omit [DecidableEq E] [DecidableEq L] in
theorem Sound.initiateThrows (hs : Sound ex s) (hc : Calm s) (h : s.initiateThrows = .ok t) :
    Sound ex t := by
  obtain ⟨i, rest, aw, -, -, hx, -, rfl⟩ := initiateThrows_cases h
  have hrunning : Sound ex (s.setStatus i.task .running) := hs.setStatus hc rfl
  have hu : Sound ex ({ s.record i.task i.number .threw with
      initiating := rest
      status := Function.update s.status i.task .running
      requested := Function.update s.requested i.task i.requested } : State E P T V) :=
    hrunning.congr rfl rfl rfl rfl rfl rfl rfl rfl rfl
  exact hu.destroyProxy (hc.update rfl rfl) fun p hp y aw' hy =>
    hs.notMem_of_update hx rfl rfl hp aw' hy

/-! ### The steps of a task -/

/-- The task goes on, and an initiate function that is still in progress learns of it. -/
def State.goesOn (s : State E P T V) (x : T) (number : ℕ) : State E P T V :=
  { s with
    status := Function.update s.status x .running
    initiating := s.initiating.map fun i : Initiation T =>
      if i.task = x ∧ i.number = number then { i with completed := true } else i }

omit [DecidableEq E] [DecidableEq L] in
theorem takeResult_cases (h : s.takeResult x aw = .ok t) :
    ∃ q v, (aw.await.awaiter = .portal q ∧ s.value q = some v ∧
        t = (((s.goesOn x aw.number).receive q v).destroyProxy aw.await).record x aw.number
          (.resumed q v)) ∨
      ((∃ p ps, aw.await.awaiter = .anyOf p ps) ∧ aw.got = some (q, v) ∧
        t = (({ s.goesOn x aw.number with
          results := Function.update s.results q (s.results q ++ [v]) } : State E P T V).destroyProxy
            aw.await).record x aw.number (.resumed q v)) := by
  unfold State.takeResult at h
  cases haw : aw.await.awaiter with
  | portal q =>
    simp only [haw] at h
    cases hv : s.value q with
    | none => simp [hv] at h
    | some v =>
      simp only [hv] at h
      cases h
      exact ⟨q, v, .inl ⟨rfl, hv, rfl⟩⟩
  | anyOf p ps =>
    simp only [haw] at h
    cases hg : aw.got with
    | none => simp [hg] at h
    | some qv =>
      obtain ⟨q, v⟩ := qv
      simp only [hg] at h
      cases h
      exact ⟨q, v, .inr ⟨⟨p, ps, rfl⟩, rfl, rfl⟩⟩

omit [DecidableEq T] [DecidableEq E] [DecidableEq L] in
theorem destroyProxy_eq (s : State E P T V) (a : Await P) :
    ∃ cb par, s.destroyProxy a = { s with callback := cb, parent := par } ∧
      ∀ p, par p = s.parent p ∨ par p = none ∧ p ∈ a.portals := by
  unfold State.destroyProxy
  split
  · refine ⟨_, _, rfl, fun p => ?_⟩
    by_cases hp : p ∈ a.portals
    · exact .inr ⟨if_pos hp, hp⟩
    · exact .inl (if_neg hp)
  · exact ⟨s.callback, s.parent, rfl, fun p => .inl rfl⟩

omit [DecidableEq T] [DecidableEq E] [DecidableEq L] in
/-- Only one task at a time is about to take its result. -/
theorem Sound.eq_of_ready {aw' : Pending P V} (hs : Sound ex s) (hx : s.status x = .ready (some aw))
    (hy : s.status y = .ready (some aw')) : y = x := by
  have h := (hs.next y aw' hy).1
  rw [(hs.next x aw hx).1] at h
  exact (Option.some.inj h).symm

omit [DecidableEq T] [DecidableEq E] [DecidableEq L] in
theorem Sound.held_eq (hs : Sound ex s) (hx : s.status x = .ready (some aw)) (p : P) :
    s.held p = Status.result p (.ready (some aw)) := by
  unfold State.held
  rw [(hs.next x aw hx).1]
  simp only [hx]

omit [DecidableEq L] [DecidableEq E] in
/-- The task takes its result, and the portals forget what they have handed over. -/
theorem Sound.taken (hs : Sound ex s) (hx : s.status x = .ready (some aw))
    (hst : u.status = Function.update s.status x .running) (hn : s.exec.nextId ≤ u.exec.nextId)
    (hjob : u.job = s.job) (haw : u.awaits = s.awaits) (hex : u.executor = s.executor)
    (hpar : ∀ p, u.parent p = s.parent p ∨ u.parent p = none ∧ p ∈ aw.await.portals)
    (hval : ∀ p, s.value p = none → u.value p = none)
    (hargs : ∀ p, u.args p = u.results p ++ (u.value p).toList) : Sound ex u := by
  have hcu : Calm u := by
    intro y aw' hy
    rw [hst] at hy
    by_cases hyx : y = x
    · subst hyx
      rw [Function.update_self] at hy
      cases hy
    · rw [Function.update_of_ne hyx] at hy
      exact hyx (hs.eq_of_ready hx hy)
  have hwait : ∀ y aw', u.status y = .waiting aw' → s.status y = .waiting aw' := by
    intro y aw' hy
    exact (waiting_of_update hst rfl hy).2
  have hsub : ∀ p h, u.parent p = some h → s.parent p = some h := by
    intro p h hp
    rcases hpar p with hu | ⟨hu, -⟩
    · rwa [hu] at hp
    · rw [hu] at hp
      cases hp
  refine ⟨fun id y h => ?_, fun p h hp => ?_, fun p y w hp => ?_, fun y aw' hy => ?_,
    fun y aw' hy => absurd hy (hcu y aw'), fun p => ?_⟩
  · rw [hjob] at h
    exact (hs.jobs id y h).trans_le hn
  · rw [hex]
    exact hs.parents p h (hsub p h hp)
  · obtain ⟨h₁, h₂⟩ := hs.children p y w (hsub p _ hp)
    rw [haw]
    exact ⟨h₁, fun aw' hy => h₂ aw' (hwait y aw' hy)⟩
  · obtain ⟨h₁, h₂, h₃⟩ := hs.waits y aw' (hwait y aw' hy)
    rw [haw]
    refine ⟨h₁, h₂, fun p hp => ⟨?_, hval p (h₃ p hp).2⟩⟩
    rcases hpar p with hu | ⟨-, hmem⟩
    · rw [hu]
      exact (h₃ p hp).1
    · exact absurd hp ((hs.next x aw hx).2.2 y aw' (hwait y aw' hy) p hmem)
  · rw [hcu.held, List.append_nil]
    exact hargs p

omit [DecidableEq E] [DecidableEq L] in
theorem Sound.takeResult {e : Executor.State E} (hs : Sound ex s)
    (hx : s.status x = .ready (some aw)) (hn : s.exec.nextId ≤ e.nextId)
    (h : ({ s with exec := e } : State E P T V).takeResult x aw = .ok t) : Sound ex t := by
  have hheld := fun p => (hs.held_eq hx p).symm
  obtain ⟨q, v, ⟨haw, hv, rfl⟩ | ⟨-, hg, rfl⟩⟩ := takeResult_cases h
  · obtain ⟨cb, par, hd, hpar⟩ :=
      destroyProxy_eq ((({ s with exec := e } : State E P T V).goesOn x aw.number).receive q v) aw.await
    rw [hd]
    have hgot : aw.got = none := by
      by_contra hgot
      obtain ⟨r, rs, hany⟩ := (hs.next x aw hx).2.1 (by simpa [Option.isSome_iff_ne_none] using hgot)
      rw [haw] at hany
      cases hany
    have hv : s.value q = some v := hv
    apply Sound.record
    refine hs.taken hx rfl hn rfl rfl rfl hpar (fun p hp => ?_) fun p => ?_
    · show Function.update s.value q none p = none
      by_cases hpq : p = q
      · rw [hpq, Function.update_self]
      · rwa [Function.update_of_ne hpq]
    · have harg := hs.args p
      rw [← hheld] at harg
      simp only [Status.result, hgot, List.append_nil] at harg
      show s.args p = Function.update s.results q (s.results q ++ [v]) p ++
        (Function.update s.value q none p).toList
      by_cases hpq : p = q
      · subst hpq
        simpa [hv] using harg
      · simpa [hpq] using harg
  · obtain ⟨cb, par, hd, hpar⟩ := destroyProxy_eq
      ({ ({ s with exec := e } : State E P T V).goesOn x aw.number with
        results := Function.update s.results q (s.results q ++ [v]) } : State E P T V) aw.await
    rw [hd]
    apply Sound.record
    refine hs.taken hx rfl hn rfl rfl rfl hpar (fun p hp => hp) fun p => ?_
    have harg := hs.args p
    rw [← hheld] at harg
    simp only [Status.result, hg] at harg
    show s.args p = Function.update s.results q (s.results q ++ [v]) p ++ (s.value p).toList
    by_cases hpq : p = q
    · subst hpq
      simpa using harg
    · simpa [hpq, Ne.symm hpq] using harg

omit [DecidableEq E] [DecidableEq L] in
/-- The task does the next step. -/
theorem begins_cases (h : s.begins x = .ok t) :
    (s.status x = .ready none ∧ t = s.setStatus x .running) ∨
    (∃ aw, s.status x = .ready (some aw) ∧ s.takeResult x aw = .ok t) := by
  unfold State.begins at h
  cases hx : s.status x with
  | ready aw =>
    cases aw with
    | none =>
      simp only [hx] at h
      cases h
      exact .inl ⟨rfl, rfl⟩
    | some aw =>
      simp only [hx] at h
      exact .inr ⟨aw, rfl, h⟩
  | unstarted => simp [hx] at h
  | running => simp [hx] at h
  | waiting aw => simp [hx] at h
  | elsewhere must => simp [hx] at h
  | ended => simp [hx] at h

theorem tick_cases (h : s.tick loop = .ok t) :
    ∃ e, Executor.step loop s.exec .tick = .ok e ∧
      ((nextCallback s.exec).bind s.job = none ∧ t = { s with exec := e } ∨
        ∃ x, (nextCallback s.exec).bind s.job = some x ∧
          ({ s with exec := e } : State E P T V).begins x = .ok t) := by
  unfold State.tick at h
  cases hj : (nextCallback s.exec).bind s.job with
  | none =>
    simp only [hj] at h
    obtain ⟨e, he, rfl⟩ := lift_eq_ok.1 h
    exact ⟨e, he, .inl ⟨rfl, rfl⟩⟩
  | some x =>
    simp only [hj] at h
    obtain ⟨u, hu, h⟩ := bind_eq_ok.1 h
    obtain ⟨e, he, rfl⟩ := lift_eq_ok.1 hu
    exact ⟨e, he, .inr ⟨x, rfl, h⟩⟩

omit [DecidableEq P] in
theorem ret_cases (h : s.ret loop = .ok t) :
    ∃ e, Executor.step loop s.exec .ret = .ok e ∧
      ((currentCallback s.exec).bind s.job = none ∧ t = { s with exec := e } ∨
        ∃ x, (currentCallback s.exec).bind s.job = some x ∧ (s.status x).isRunning = false ∧
          s.initiator = none ∧ t = { s with
            steps := Function.update s.steps x (s.steps x + 1)
            exec := e }) := by
  unfold State.ret at h
  cases hj : (currentCallback s.exec).bind s.job with
  | none =>
    simp only [hj] at h
    obtain ⟨e, he, rfl⟩ := lift_eq_ok.1 h
    exact ⟨e, he, .inl ⟨rfl, rfl⟩⟩
  | some x =>
    simp only [hj] at h
    split_ifs at h with hr
    obtain ⟨e, he, rfl⟩ := lift_eq_ok.1 h
    simp only [not_or, Bool.not_eq_true] at hr
    exact ⟨e, he, .inr ⟨x, rfl, hr.1, by simpa using hr.2, rfl⟩⟩

omit [DecidableEq E] [DecidableEq L] in
/-- The frame of a loop, when it is its turn. -/
theorem nextCallback_eq {e : Executor.State E} (h : ∃ e' tasks prev first below,
    e.stack = .drain e' tasks prev first :: below) : nextCallback e = upNext e := by
  obtain ⟨e', tasks, prev, first, below, hst⟩ := h
  simp only [nextCallback, upNext, hst]
  cases e.lists tasks with
  | nil => rfl
  | cons task l => cases task <;> rfl

omit [DecidableEq P] [DecidableEq T] in
/-- The callback that a loop is about to execute. -/
theorem nextCallback_of_tick {e : Executor.State E} (he : Executor.step loop s.exec .tick = .ok e) :
    nextCallback s.exec = upNext s.exec := by
  obtain ⟨e', tasks, prev, first, below, hst, -⟩ := Executor.tick_cases he
  exact nextCallback_eq ⟨e', tasks, prev, first, below, hst⟩

omit [DecidableEq T] in
/-- If the next callback is the step of a task that has no result to take, then no task has. -/
theorem Sound.calm_of_next {e : Executor.State E} (hs : Sound ex s)
    (he : Executor.step loop s.exec .tick = .ok e) (hj : (nextCallback s.exec).bind s.job = some x)
    (hx : s.status x = .ready none) : Calm s := by
  intro y aw hy
  have hyx := (hs.next y aw hy).1
  rw [nextCallback_of_tick he] at hj
  rw [hj] at hyx
  cases hyx
  rw [hx] at hy
  cases hy

theorem Sound.tick (hs : Sound ex s) (h : s.tick loop = .ok t) : Sound ex t := by
  obtain ⟨e, he, h⟩ := tick_cases h
  have hn := nextId_le_of_step he
  rcases h with ⟨hj, rfl⟩ | ⟨x, hj, h⟩
  · refine hs.setExec (fun y aw hy => ?_) hn
    rw [nextCallback_of_tick he, (hs.next y aw hy).1] at hj
    cases hj
  · rcases begins_cases h with ⟨hx, rfl⟩ | ⟨aw, hx, h⟩
    · exact (hs.setExec (hs.calm_of_next he hj hx) hn).setStatus (hs.calm_of_next he hj hx) rfl
    · exact hs.takeResult hx hn h

theorem Sound.ret (hs : Sound ex s) (h : s.ret loop = .ok t) : Sound ex t := by
  obtain ⟨e, he, h⟩ := ret_cases h
  have hn := nextId_le_of_step he
  have hs' : Sound ex { s with exec := e } := by
    rcases Executor.ret_cases he with ⟨id, tasks, below, hst, -⟩ | ⟨e', k, old, below, hst, rfl⟩
    · refine hs.setExec (fun y aw hy => ?_) hn
      have hnone := (hs.next y aw hy).1
      simp [upNext, hst] at hnone
    · -- the list of the `capture()` is what the new loop drains
      have hup : upNext ({ s.exec with
          ready := Function.update s.exec.ready e' old
          stack := below }.drain e' (.tmp e' k)) = upNext s.exec := by
        simp only [upNext, hst]
        rfl
      refine ⟨hs.jobs, hs.parents, hs.children, hs.waits, fun y aw hy => ?_, fun p => ?_⟩
      · rw [hup]
        exact hs.next y aw hy
      · unfold State.held
        rw [hup]
        exact hs.args p
  rcases h with ⟨-, rfl⟩ | ⟨x, -, -, -, rfl⟩
  · exact hs'
  · exact hs'.congr rfl rfl rfl rfl rfl rfl rfl rfl rfl

/-! ### The machine -/

/-- Whoever has control acts: a loop, a callback that returns, or the code outside. -/
theorem step_cases {act : Action E P T V} (h : step loop ex s act = .ok t) :
    (act = .tick ∧ s.tick loop = .ok t) ∨ (act = .ret ∧ s.ret loop = .ok t) ∨
      (s.userCode = true ∧ s.userStep loop ex act = .ok t) := by
  unfold step at h
  split at h
  · exact .inl ⟨rfl, h⟩
  · exact .inr (.inl ⟨rfl, h⟩)
  · split_ifs at h with hu
    exact .inr (.inr ⟨hu, h⟩)

/-- A task leaves for something that has nothing to do with portals. -/
theorem leaves_cases {answer : Option Bool} (h : s.userStep loop ex (.leaves x answer) = .ok t) :
    s.runs x = true ∧ ∃ st : Status P V, (st = .ended ∨ ∃ must, st = .elsewhere must) ∧
      t = ({ s with requested := Function.update s.requested x false } : State E P T V).setStatus x st := by
  simp only [State.userStep] at h
  by_cases hr : s.runs x = true
  · rw [if_pos hr] at h
    refine ⟨hr, ?_⟩
    by_cases hq : s.requested x = true
    · rw [if_pos hq] at h
      cases answer with
      | none =>
        cases h
        exact ⟨_, .inl rfl, rfl⟩
      | some must =>
        cases h
        exact ⟨_, .inr ⟨_, rfl⟩, rfl⟩
    · rw [if_neg hq] at h
      cases h
      exact ⟨_, .inr ⟨_, rfl⟩, rfl⟩
  · rw [if_neg hr] at h
    cases h

theorem Sound.userStep {act : Action E P T V} (hs : Sound ex s) (hc : Calm s)
    (h : s.userStep loop ex act = .ok t) : Sound ex t := by
  have hlift : ∀ a, s.lift (Executor.step loop s.exec a) = .ok t → Sound ex t := by
    intro a h
    obtain ⟨e, he, rfl⟩ := lift_eq_ok.1 h
    exact hs.setExec hc (nextId_le_of_step he)
  cases act with
  | runSoon e => exact hlift _ h
  | drain e => exact hlift _ h
  | capture e => exact hlift _ h
  | tick => cases h
  | ret => cases h
  | start x =>
    simp only [State.userStep] at h
    split at h
    · exact hs.doResume hc h
    · cases h
  | finish x =>
    simp only [State.userStep] at h
    split_ifs at h
    cases h
    exact hs.setStatus hc rfl
  | coAwait x a =>
    simp only [State.userStep] at h
    split_ifs at h
    exact hs.coAwait hc h
  | initiateReturns => exact hs.initiateReturns hc h
  | initiateThrows => exact hs.initiateThrows hc h
  | invoke p v => exact hs.invoke hc h
  | cancel x answer => exact hs.cancel hc h
  | leaves x answer =>
    obtain ⟨-, st, hst, rfl⟩ := leaves_cases h
    have hnot : st.isSuspended = false := by
      rcases hst with rfl | ⟨must, rfl⟩ <;> rfl
    exact (hs.setStatus (x := x) hc hnot).congr rfl rfl rfl rfl rfl rfl rfl rfl rfl
  | answers x must =>
    simp only [State.userStep] at h
    split at h
    · cases h
      exact hs.setStatus hc rfl
    · cases h
  | comesBack x =>
    simp only [State.userStep] at h
    split at h
    · rename_i must hx
      rcases resumeTask_cases h with ⟨aw, r, hx', -⟩ | ⟨aw, hx', -⟩ | ⟨-, -, ⟨r, h⟩ | rfl⟩ | ⟨-, rfl⟩
      · rw [hx] at hx'
        cases hx'
      · rw [hx] at hx'
        cases hx'
      · have hu : Sound ex ({ s with requested := r } : State E P T V) :=
          hs.congr rfl rfl rfl rfl rfl rfl rfl rfl rfl
        exact hu.doResume hc h
      · exact hs.setStatus hc rfl
      · exact hs
    · cases h

/-- The step lemma. -/
theorem Sound.step {act : Action E P T V} (hs : Sound ex s) (h : step loop ex s act = .ok t) :
    Sound ex t := by
  rcases step_cases h with ⟨-, h⟩ | ⟨-, h⟩ | ⟨hu, h⟩
  · exact hs.tick h
  · exact hs.ret h
  · exact hs.userStep (hs.calm hu) h

/-- The run lemma. -/
theorem sound_of_reach {ok : State E P T V → Action E P T V → Prop}
    (hr : Reach (step loop ex) ok .init s) : Sound ex s :=
  hr.invariant sound_init fun _ _ _ hs _ h => hs.step h

end Corral.CBPortal
