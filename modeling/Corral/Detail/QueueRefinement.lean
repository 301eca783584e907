import Corral.Detail.QueueObjects
import Corral.Lib.Machine
import Corral.Lib.Registry

/-!
# `detail::Queue` is a list

Runs of any number of queues that are created, moved and destroyed, where no constructor throws,
beside the same runs of lists.

* `Action`, `step`: the calls, on the queues of `Corral.Detail.QueueObjects`;
* `Lists`, `Lists.step`: what they are meant to do;
* `Agrees`: the queues of a state represent the lists, and their objects are the ones that have been
  constructed and not destroyed;
* `agrees_step`: every call of a run of lists is a call of the queues that agrees with it;
* `fifo`: so is the run, and the offsets of every queue fit its size.
-/

namespace Corral.QueueObjects

open ObjectStorage RawStorage RawQueue Registry ActionMachine

variable {ι α : Type*}

inductive Action (ι α : Type*)
  | create (i : ι) (capacity : ℕ)
  | pushBack (i : ι) (x : α)
  | emplaceBack (i : ι) (x : α)
  | append (i : ι) (xs : List α)
  | popFront (i : ι)
  | front (i : ι)
  | popFrontTo (i : ι) (n : ℕ)
  | forEachItem (i : ι) (f : α → α)
  | moveConstruct (i j : ι)
  | moveAssign (i j : ι)
  | destroy (i : ι)

/-- What a call yields: an object, or the objects written or visited. -/
inductive Result (α : Type*)
  | object (x : α)
  | objects (xs : List α)

/-- Why a call has no outcome: a wrong access, an assertion, a queue that does not exist or that exists
already. -/
inductive Misuse
  | storage (f : Fault)
  | assertion
  | lifetime
  deriving DecidableEq

structure State (ι α : Type*) where
  queues : Reg ι (RawQueue α)
  account : Account
  results : List (Result α)

/-- No queue, and no constructor that throws. -/
def State.init : State ι α := ⟨∅, ⟨0, 0, none⟩, []⟩

variable [DecidableEq ι]

def lift {β : Type*} (x : Except Fault β) : Except Misuse β := x.mapError .storage

def State.withQueue {β : Type*} (s : State ι α) (i : ι) (f : RawQueue α → Except Misuse β) :
    Except Misuse β :=
  match s.queues.lookup i with
  | none => .error .lifetime
  | some q => f q

def State.put (s : State ι α) (i : ι) (e : Account) (q : RawQueue α) (r : List (Result α)) :
    State ι α :=
  ⟨s.queues.insert i q, e, s.results ++ r⟩

/-- A queue that has been moved from has no storage. -/
def moved : RawQueue α := .new 0

/-- One call. -/
def step (s : State ι α) : Action ι α → Except Misuse (State ι α)
  | .create i capacity =>
    if (s.queues.lookup i).isSome then .error .lifetime
    else .ok (s.put i s.account (.new capacity) [])
  | .pushBack i x => s.withQueue i fun q =>
    (lift (pushBack s.account q x)).map fun r => s.put i r.2.1 r.2.2 []
  | .emplaceBack i x => s.withQueue i fun q =>
    (lift (emplaceBack s.account q x)).map fun r => s.put i r.2.1 r.2.2 []
  | .append i xs => s.withQueue i fun q =>
    (lift (append s.account q xs)).map fun r => s.put i r.2.1 r.2.2 []
  | .popFront i => s.withQueue i fun q =>
    (lift (popFront s.account q)).map fun r => s.put i r.1 r.2 []
  | .front i => s.withQueue i fun q => (lift (front q)).map fun x => s.put i s.account q [.object x]
  | .popFrontTo i n => s.withQueue i fun q =>
    if n ≤ q.size then
      (lift (popFrontTo s.account q n)).map fun r => s.put i r.2.1 r.2.2 [.objects r.1]
    else .error .assertion
  | .forEachItem i f => s.withQueue i fun q =>
    (lift (forEachItem q f)).map fun r => s.put i s.account r.2 [.objects r.1]
  | .moveConstruct i j =>
    if (s.queues.lookup i).isSome then .error .lifetime
    else s.withQueue j fun q => .ok ((s.put j s.account moved []).put i s.account q [])
  -- the parameter takes the storage of `j`, then that of `i`, which it destroys
  | .moveAssign i j => s.withQueue j fun q =>
    (s.put j s.account moved []).withQueue i fun old =>
      (lift (destroy s.account old)).map fun e => (s.put j s.account moved []).put i e q []
  | .destroy i => s.withQueue i fun q =>
    (lift (destroy s.account q)).map fun e => ⟨s.queues.erase i, e, s.results⟩

/-! ### Lists -/

structure Lists (ι α : Type*) where
  contents : ι → Option (List α)
  results : List (Result α)

def Lists.init : Lists ι α := ⟨fun _ => none, []⟩

def Lists.withList {β : Type*} (t : Lists ι α) (i : ι) (f : List α → Except Misuse β) :
    Except Misuse β :=
  match t.contents i with
  | none => .error .lifetime
  | some xs => f xs

def Lists.put (t : Lists ι α) (i : ι) (xs : List α) (r : List (Result α)) : Lists ι α :=
  ⟨Function.update t.contents i (some xs), t.results ++ r⟩

/-- What a call is meant to do; `pop_front()` and `front()` need an object, `pop_front_to()` as many as
it is to take. -/
def Lists.step (t : Lists ι α) : Action ι α → Except Misuse (Lists ι α)
  | .create i _ => if (t.contents i).isSome then .error .lifetime else .ok (t.put i [] [])
  | .pushBack i x => t.withList i fun xs => .ok (t.put i (xs ++ [x]) [])
  | .emplaceBack i x => t.withList i fun xs => .ok (t.put i (xs ++ [x]) [])
  | .append i ys => t.withList i fun xs => .ok (t.put i (xs ++ ys) [])
  | .popFront i => t.withList i fun
    | [] => .error .assertion
    | _ :: xs => .ok (t.put i xs [])
  | .front i => t.withList i fun
    | [] => .error .assertion
    | x :: xs => .ok (t.put i (x :: xs) [.object x])
  | .popFrontTo i n => t.withList i fun xs =>
    if n ≤ xs.length then .ok (t.put i (xs.drop n) [.objects (xs.take n)]) else .error .assertion
  | .forEachItem i f => t.withList i fun xs => .ok (t.put i (xs.map f) [.objects xs])
  | .moveConstruct i j =>
    if (t.contents i).isSome then .error .lifetime
    else t.withList j fun xs => .ok ((t.put j [] []).put i xs [])
  | .moveAssign i j => t.withList j fun xs =>
    (t.put j [] []).withList i fun _ => .ok ((t.put j [] []).put i xs [])
  | .destroy i => t.withList i fun _ => .ok ⟨Function.update t.contents i none, t.results⟩

/-! ### One call -/

/-- The queues represent the lists. -/
structure Agrees (s : State ι α) (t : Lists ι α) : Prop where
  rep : ∀ i, Option.Rel Rep (s.queues.lookup i) (t.contents i)
  results : s.results = t.results
  balance : s.account.constructed = s.account.destroyed + total RawQueue.size s.queues
  copies : s.account.copies = none

theorem agrees_init : Agrees (State.init : State ι α) .init :=
  ⟨fun _ => .none, rfl, rfl, rfl⟩

variable {s : State ι α} {t u : Lists ι α} {i j : ι}

omit [DecidableEq ι] in
theorem withList_eq_ok {f : List α → Except Misuse (Lists ι α)} (h : t.withList i f = .ok u) :
    ∃ xs, t.contents i = some xs ∧ f xs = .ok u := by
  unfold Lists.withList at h
  cases hx : t.contents i with
  | none => simp [hx] at h
  | some xs => exact ⟨xs, rfl, by simpa [hx] using h⟩

theorem Agrees.of_some {xs : List α} (h : Agrees s t) (hx : t.contents i = some xs) :
    ∃ q, s.queues.lookup i = some q ∧ Rep q xs := by
  have hr := h.rep i
  rw [hx] at hr
  cases hq : s.queues.lookup i with
  | none => rw [hq] at hr; cases hr
  | some q =>
    rw [hq] at hr
    cases hr with
    | some hrep => exact ⟨q, rfl, hrep⟩

theorem Agrees.of_none (h : Agrees s t) (hx : t.contents i = none) : s.queues.lookup i = none := by
  have hr := h.rep i
  rw [hx] at hr
  cases hq : s.queues.lookup i with
  | none => rfl
  | some q => rw [hq] at hr; cases hr

/-- A queue is replaced: its objects change by as many as are constructed and destroyed. -/
theorem Agrees.put {q q' : RawQueue α} {xs : List α} {e : Account} (h : Agrees s t)
    (hq : s.queues.lookup i = some q) (hrep : Rep q' xs) (r : List (Result α))
    (hcount : e.constructed + s.account.destroyed + q.size
      = s.account.constructed + e.destroyed + q'.size)
    (hcopies : e.copies = none) : Agrees (s.put i e q' r) (t.put i xs r) := by
  obtain ⟨hr, hres, hbal, -⟩ := h
  refine ⟨fun k => ?_, by simp only [State.put, Lists.put, hres], ?_, hcopies⟩
  · simp only [State.put, Lists.put, lookup_insert_eq, Function.update_apply]
    split_ifs with hk
    · exact .some hrep
    · exact hr k
  · have ht := total_insert RawQueue.size q' hq
    simp only [State.put]
    omega

/-- A new queue. -/
theorem Agrees.create {q : RawQueue α} {xs : List α} (h : Agrees s t)
    (hq : s.queues.lookup i = none) (hrep : Rep q xs) (e : Account)
    (hcount : e.constructed + s.account.destroyed = s.account.constructed + e.destroyed + q.size)
    (hcopies : e.copies = none) : Agrees (s.put i e q []) (t.put i xs []) := by
  obtain ⟨hr, hres, hbal, -⟩ := h
  refine ⟨fun k => ?_, by simp only [State.put, Lists.put, hres], ?_, hcopies⟩
  · simp only [State.put, Lists.put, lookup_insert_eq, Function.update_apply]
    split_ifs with hk
    · exact .some hrep
    · exact hr k
  · have ht := total_insert_new RawQueue.size q hq
    simp only [State.put]
    omega

/-- Objects are added, after `m` others have been relocated. -/
theorem Agrees.add {q q' : RawQueue α} {xs ys : List α} {m : ℕ} (h : Agrees s t)
    (hq : s.queues.lookup i = some q) (hrep : Rep q xs) (hrep' : Rep q' (xs ++ ys)) :
    Agrees (s.put i (((s.account.construct m).destroy m).construct ys.length) q' [])
      (t.put i (xs ++ ys) []) := by
  refine h.put hq hrep' [] ?_ (by simp [Account.construct, Account.destroy, h.copies])
  rw [hrep.size_eq, hrep'.size_eq, List.length_append]
  simp only [Account.construct, Account.destroy]
  omega

omit [DecidableEq ι] in
theorem lift_ok {β : Type*} {x : Except Fault β} {b : β} (h : x = .ok b) : lift x = .ok b := by
  rw [h]
  rfl

theorem withQueue_some {β : Type*} {q : RawQueue α} (f : RawQueue α → Except Misuse β)
    (hq : s.queues.lookup i = some q) : s.withQueue i f = f q := by
  simp only [State.withQueue, hq]

/-- `moveAssign`, the objects of which are those of `j`. -/
theorem agrees_moveAssign (h : Agrees s t) (hs : Lists.step t (.moveAssign i j) = .ok u) :
    ∃ s', step s (.moveAssign i j) = .ok s' ∧ Agrees s' u := by
  obtain ⟨xs, hx, hs⟩ := withList_eq_ok hs
  obtain ⟨ys, hy, hs⟩ := withList_eq_ok hs
  cases hs
  obtain ⟨q, hq, hrep⟩ := h.of_some hx
  have hbal := h.balance
  by_cases hij : i = j
  · -- the parameter gives the storage back
    subst hij
    have hold : (s.put i s.account moved []).queues.lookup i = some moved := by
      simp [State.put]
    refine ⟨(s.put i s.account moved []).put i s.account q [], ?_, ?_⟩
    · simp only [step, withQueue_some _ hq, withQueue_some _ hold]
      rw [lift_ok (destroy_of_size_eq_zero rfl s.account)]
      rfl
    · obtain ⟨hr, hres, -, hcopies⟩ := h
      refine ⟨fun k => ?_, by simp [State.put, Lists.put, hres], ?_, hcopies⟩
      · simp only [State.put, Lists.put, lookup_insert_eq, Function.update_apply]
        split_ifs with hk
        · exact .some hrep
        · exact hr k
      · have h₁ := total_insert RawQueue.size moved hq
        have h₂ := total_insert RawQueue.size q hold
        simp only [State.put] at h₂ ⊢
        omega
  · have hy' : t.contents i = some ys := by simpa [Lists.put, Function.update_of_ne hij] using hy
    obtain ⟨old, hold, hrep'⟩ := h.of_some hy'
    have hold' : (s.put j s.account moved []).queues.lookup i = some old := by
      simp only [State.put, lookup_insert_eq, if_neg hij, hold]
    refine ⟨(s.put j s.account moved []).put i (s.account.destroy old.size) q [], ?_, ?_⟩
    · simp only [step, withQueue_some _ hq, withQueue_some _ hold']
      rw [lift_ok (destroy_eq hrep' s.account)]
      rfl
    · obtain ⟨hr, hres, -, hcopies⟩ := h
      refine ⟨fun k => ?_, by simp [State.put, Lists.put, hres], ?_, hcopies⟩
      · simp only [State.put, Lists.put, lookup_insert_eq, Function.update_apply]
        split_ifs with hk hk'
        · exact .some hrep
        · exact .some (rep_new 0)
        · exact hr k
      · have h₁ := total_insert RawQueue.size moved hq
        have h₂ := total_insert RawQueue.size q hold'
        have hzero : (moved : RawQueue α).size = 0 := rfl
        simp only [State.put, Account.destroy] at h₁ h₂ ⊢
        omega

theorem agrees_step {a : Action ι α} (h : Agrees s t) (hs : Lists.step t a = .ok u) :
    ∃ s', step s a = .ok s' ∧ Agrees s' u := by
  have hall := Account.allows_of_none h.copies
  cases a with
  | create i capacity =>
    simp only [Lists.step] at hs
    split_ifs at hs with hx
    cases hs
    have hq : s.queues.lookup i = none := h.of_none (by simpa using hx)
    exact ⟨_, by simp only [step, hq]; rfl, h.create hq (rep_new capacity) _ rfl h.copies⟩
  | pushBack i x =>
    obtain ⟨xs, hx, hs⟩ := withList_eq_ok hs
    cases hs
    obtain ⟨q, hq, hrep⟩ := h.of_some hx
    exact ⟨_, by simp only [step, withQueue_some _ hq]; rw [lift_ok (pushBack_eq hrep x (hall _))]; rfl,
      h.add hq hrep (hrep.pushBack x)⟩
  | emplaceBack i x =>
    obtain ⟨xs, hx, hs⟩ := withList_eq_ok hs
    cases hs
    obtain ⟨q, hq, hrep⟩ := h.of_some hx
    exact ⟨_, by
      simp only [step, withQueue_some _ hq, emplaceBack_eq_pushBack]
      rw [lift_ok (pushBack_eq hrep x (hall _))]
      rfl, h.add hq hrep (hrep.pushBack x)⟩
  | append i ys =>
    obtain ⟨xs, hx, hs⟩ := withList_eq_ok hs
    cases hs
    obtain ⟨q, hq, hrep⟩ := h.of_some hx
    exact ⟨_, by simp only [step, withQueue_some _ hq]; rw [lift_ok (append_eq hrep ys (hall _))]; rfl,
      h.add hq hrep (hrep.append ys)⟩
  | popFront i =>
    obtain ⟨xs, hx, hs⟩ := withList_eq_ok hs
    obtain ⟨q, hq, hrep⟩ := h.of_some hx
    rcases xs with _ | ⟨x, xs⟩
    · cases hs
    · cases hs
      refine ⟨s.put i (s.account.destroy 1) q.popFront [], ?_, h.put hq hrep.popFront [] ?_ h.copies⟩
      · simp only [step, withQueue_some _ hq]
        rw [lift_ok (popFront_eq hrep s.account)]
        rfl
      · rw [hrep.popFront.size_eq, hrep.size_eq, List.length_cons]
        simp only [Account.destroy]
        omega
  | front i =>
    obtain ⟨xs, hx, hs⟩ := withList_eq_ok hs
    obtain ⟨q, hq, hrep⟩ := h.of_some hx
    rcases xs with _ | ⟨x, xs⟩
    · cases hs
    · cases hs
      exact ⟨_, by simp only [step, withQueue_some _ hq]; rw [lift_ok (front_eq hrep)]; rfl,
        h.put hq hrep _ rfl h.copies⟩
  | popFrontTo i n =>
    obtain ⟨xs, hx, hs⟩ := withList_eq_ok hs
    obtain ⟨q, hq, hrep⟩ := h.of_some hx
    split_ifs at hs with hn
    cases hs
    have hn' : n ≤ q.size := hrep.size_eq ▸ hn
    obtain ⟨hout, hrep'⟩ := hrep.popFrontTo hn'
    refine ⟨s.put i (s.account.destroy n) (q.popFrontTo n).2 [.objects (xs.take n)], ?_,
      h.put hq hrep' _ ?_ h.copies⟩
    · simp only [step, withQueue_some _ hq, if_pos hn']
      rw [lift_ok (popFrontTo_eq hrep s.account hn'), hout]
      rfl
    · rw [hrep'.size_eq, hrep.size_eq, List.length_drop]
      simp only [Account.destroy]
      omega
  | forEachItem i f =>
    obtain ⟨xs, hx, hs⟩ := withList_eq_ok hs
    cases hs
    obtain ⟨q, hq, hrep⟩ := h.of_some hx
    exact ⟨_, by simp only [step, withQueue_some _ hq]; rw [lift_ok (forEachItem_eq hrep f)]; rfl,
      h.put hq (rep_map hrep f) _ rfl h.copies⟩
  | moveConstruct i j =>
    simp only [Lists.step] at hs
    split_ifs at hs with hi
    obtain ⟨xs, hx, hs⟩ := withList_eq_ok hs
    cases hs
    obtain ⟨q, hq, hrep⟩ := h.of_some hx
    have hi' : s.queues.lookup i = none := h.of_none (by simpa using hi)
    have hij : i ≠ j := by rintro rfl; simp [hi'] at hq
    have hnew : (s.put j s.account moved []).queues.lookup i = none := by
      simp only [State.put, lookup_insert_eq, if_neg hij, hi']
    refine ⟨_, by simp only [step, hi', withQueue_some _ hq]; rfl, ?_⟩
    obtain ⟨hr, hres, hbal, hcopies⟩ := h
    refine ⟨fun k => ?_, by simp [State.put, Lists.put, hres], ?_, hcopies⟩
    · simp only [State.put, Lists.put, lookup_insert_eq, Function.update_apply]
      split_ifs with hk hk'
      · exact .some hrep
      · exact .some (rep_new 0)
      · exact hr k
    · have h₁ := total_insert RawQueue.size moved hq
      have h₂ := total_insert_new RawQueue.size q hnew
      have hzero : (moved : RawQueue α).size = 0 := rfl
      simp only [State.put] at h₁ h₂ ⊢
      omega
  | moveAssign i j => exact agrees_moveAssign h hs
  | destroy i =>
    obtain ⟨xs, hx, hs⟩ := withList_eq_ok hs
    cases hs
    obtain ⟨q, hq, hrep⟩ := h.of_some hx
    refine ⟨_, by simp only [step, withQueue_some _ hq]; rw [lift_ok (destroy_eq hrep s.account)]; rfl, ?_⟩
    obtain ⟨hr, hres, hbal, hcopies⟩ := h
    refine ⟨fun k => ?_, hres, ?_, hcopies⟩
    · simp only [lookup_erase_eq, Function.update_apply]
      split_ifs with hk
      · exact .none
      · exact hr k
    · have ht := total_erase RawQueue.size hq
      simp only [Account.destroy]
      omega

/-! ### Capacity -/

/-- The number of objects that a call adds to a queue. -/
def Action.added (i : ι) : Action ι α → ℕ
  | .pushBack k _ => if k = i then 1 else 0
  | .emplaceBack k _ => if k = i then 1 else 0
  | .append k xs => if k = i then xs.length else 0
  | _ => 0

/-- The queues that a call moves the storage of. -/
def Action.moves : Action ι α → List ι
  | .moveConstruct i j => [i, j]
  | .moveAssign i j => [i, j]
  | _ => []

variable {s' : State ι α}

theorem withQueue_eq_ok {f : RawQueue α → Except Misuse (State ι α)} (h : s.withQueue i f = .ok s') :
    ∃ q, s.queues.lookup i = some q ∧ f q = .ok s' := by
  unfold State.withQueue at h
  cases hq : s.queues.lookup i with
  | none => simp [hq] at h
  | some q => exact ⟨q, rfl, by simpa [hq] using h⟩

omit [DecidableEq ι] in
theorem lift_map_eq_ok {β : Type*} {x : Except Fault β} {f : β → State ι α}
    (h : (lift x).map f = .ok s') : ∃ b, x = .ok b ∧ s' = f b := by
  cases x with
  | error e => cases h
  | ok b => cases h; exact ⟨b, rfl, rfl⟩

theorem Agrees.exists_rep {q : RawQueue α} (h : Agrees s t) (hq : s.queues.lookup i = some q) :
    ∃ xs, Rep q xs := by
  have hr := h.rep i
  rw [hq] at hr
  cases hx : t.contents i with
  | none => rw [hx] at hr; cases hr
  | some xs =>
    rw [hx] at hr
    cases hr with
    | some hrep => exact ⟨xs, hrep⟩

/-- A queue `q` takes the place of `p`. -/
theorem capacity_put {k : ι} {p q r r' : RawQueue α} {e : Account} {out : List (Result α)} {c : ℕ}
    (hp : s.queues.lookup k = some p) (hc : q.capacity = p.capacity ∨ p.capacity < p.size + c)
    (hr : s.queues.lookup i = some r) (hr' : (s.put k e q out).queues.lookup i = some r')
    (hne : r'.capacity ≠ r.capacity) : r.capacity < r.size + if k = i then c else 0 := by
  simp only [State.put, lookup_insert_eq] at hr'
  by_cases hki : k = i
  · subst hki
    rw [hp] at hr
    cases hr
    rw [if_pos rfl] at hr' ⊢
    cases hr'
    exact hc.resolve_left hne
  · rw [if_neg (Ne.symm hki), hr] at hr'
    cases hr'
    exact absurd rfl hne

/-- The capacity of a queue changes only when it has no room for the objects that are added. -/
theorem capacity_step {a : Action ι α} {q q' : RawQueue α} (h : Agrees s t) (hs : step s a = .ok s')
    (hq : s.queues.lookup i = some q) (hq' : s'.queues.lookup i = some q') (hm : i ∉ a.moves)
    (hne : q'.capacity ≠ q.capacity) : q.capacity < q.size + a.added i := by
  have hall := Account.allows_of_none h.copies
  cases a with
  | create k capacity =>
    simp only [step] at hs
    split_ifs at hs with hk
    cases hs
    have hki : i ≠ k := by rintro rfl; simp [hq] at hk
    simp only [State.put, lookup_insert_eq, if_neg hki, hq] at hq'
    cases hq'
    exact absurd rfl hne
  | pushBack k x =>
    obtain ⟨p, hp, hs⟩ := withQueue_eq_ok hs
    obtain ⟨b, hb, rfl⟩ := lift_map_eq_ok hs
    obtain ⟨xs, hrep⟩ := h.exists_rep hp
    rw [pushBack_eq hrep x (hall _)] at hb
    cases hb
    refine capacity_put (c := 1) hp ?_ hq hq' hne
    have hle := hrep.size_le
    by_cases hfull : p.size = p.capacity
    · omega
    · left
      simp only [RawQueue.pushBack, if_neg hfull, construct_capacity]
  | emplaceBack k x =>
    obtain ⟨p, hp, hs⟩ := withQueue_eq_ok hs
    obtain ⟨b, hb, rfl⟩ := lift_map_eq_ok hs
    obtain ⟨xs, hrep⟩ := h.exists_rep hp
    rw [emplaceBack_eq_pushBack, pushBack_eq hrep x (hall _)] at hb
    cases hb
    refine capacity_put (c := 1) hp ?_ hq hq' hne
    have hle := hrep.size_le
    by_cases hfull : p.size = p.capacity
    · omega
    · left
      simp only [RawQueue.pushBack, if_neg hfull, construct_capacity]
  | append k ys =>
    obtain ⟨p, hp, hs⟩ := withQueue_eq_ok hs
    obtain ⟨b, hb, rfl⟩ := lift_map_eq_ok hs
    obtain ⟨xs, hrep⟩ := h.exists_rep hp
    rw [append_eq hrep ys (hall _)] at hb
    cases hb
    refine capacity_put (c := ys.length) hp ?_ hq hq' hne
    by_cases hfull : p.capacity < p.size + ys.length
    · exact .inr hfull
    · left
      simp only [RawQueue.append, if_neg hfull, appendFit_capacity]
  | popFront k =>
    obtain ⟨p, hp, hs⟩ := withQueue_eq_ok hs
    obtain ⟨b, hb, rfl⟩ := lift_map_eq_ok hs
    obtain ⟨d, hd, rfl⟩ := map_eq_ok.1 hb
    have hlen : d.2.length = p.capacity := destroyObjects_length hd
    simpa [Action.added] using capacity_put (c := 0) hp (.inl (by simpa [capacity] using hlen)) hq hq' hne
  | front k =>
    obtain ⟨p, hp, hs⟩ := withQueue_eq_ok hs
    obtain ⟨b, hb, rfl⟩ := lift_map_eq_ok hs
    simpa [Action.added] using capacity_put (c := 0) hp (.inl rfl) hq hq' hne
  | popFrontTo k n =>
    obtain ⟨p, hp, hs⟩ := withQueue_eq_ok hs
    split_ifs at hs with hn
    obtain ⟨b, hb, rfl⟩ := lift_map_eq_ok hs
    obtain ⟨xs, hrep⟩ := h.exists_rep hp
    rw [popFrontTo_eq hrep s.account hn] at hb
    cases hb
    simpa [Action.added] using capacity_put (c := 0) hp (.inl (popFrontTo_capacity p n)) hq hq' hne
  | forEachItem k f =>
    obtain ⟨p, hp, hs⟩ := withQueue_eq_ok hs
    obtain ⟨b, hb, rfl⟩ := lift_map_eq_ok hs
    obtain ⟨xs, hrep⟩ := h.exists_rep hp
    rw [forEachItem_eq hrep f] at hb
    cases hb
    simpa [Action.added] using capacity_put (c := 0) hp (.inl (by simp [capacity])) hq hq' hne
  | moveConstruct k j =>
    simp only [step] at hs
    split_ifs at hs with hk
    obtain ⟨p, hp, hs⟩ := withQueue_eq_ok hs
    cases hs
    simp only [Action.moves, List.mem_cons, List.not_mem_nil, or_false, not_or] at hm
    simp only [State.put, lookup_insert_eq, if_neg hm.1, if_neg hm.2, hq] at hq'
    cases hq'
    exact absurd rfl hne
  | moveAssign k j =>
    obtain ⟨p, hp, hs⟩ := withQueue_eq_ok hs
    obtain ⟨old, hold, hs⟩ := withQueue_eq_ok hs
    obtain ⟨b, hb, rfl⟩ := lift_map_eq_ok hs
    simp only [Action.moves, List.mem_cons, List.not_mem_nil, or_false, not_or] at hm
    simp only [State.put, lookup_insert_eq, if_neg hm.1, if_neg hm.2, hq] at hq'
    cases hq'
    exact absurd rfl hne
  | destroy k =>
    obtain ⟨p, hp, hs⟩ := withQueue_eq_ok hs
    obtain ⟨b, hb, rfl⟩ := lift_map_eq_ok hs
    rw [lookup_erase_eq] at hq'
    split_ifs at hq' with hki
    rw [hq] at hq'
    cases hq'
    exact absurd rfl hne

/-! ### Runs -/

/-- The offsets of a queue, and the room that it has. -/
def WellFormed (q : RawQueue α) : Prop :=
  q.tail = (q.head + q.size) % q.capacity ∧ (q.head < q.capacity ∨ q.capacity = 0 ∧ q.head = 0) ∧
    q.size ≤ q.capacity

omit [DecidableEq ι] in
theorem wellFormed_of_rep {q : RawQueue α} {xs : List α} (h : Rep q xs) : WellFormed q := by
  refine ⟨?_, ?_, h.size_le⟩
  · cases h with
    | straight a b xs hb =>
      simp only [capacity, List.length_append, List.length_replicate, List.length_map]
      rcases hb with hb | ⟨rfl, rfl⟩
      · rw [Nat.mod_eq_of_lt (by omega)]
      · simp
    | wrapped ys g xs hx =>
      have hpos : 0 < xs.length := List.length_pos_iff.2 hx
      simp only [capacity, List.length_append, List.length_replicate, List.length_map]
      rw [show ys.length + g + (xs.length + ys.length) = ys.length + (ys.length + g + xs.length) by
        omega, Nat.add_mod_right, Nat.mod_eq_of_lt (by omega)]
  · cases h with
    | straight a b xs hb =>
      simp only [capacity, List.length_append, List.length_replicate, List.length_map]
      rcases hb with hb | ⟨rfl, rfl⟩
      · omega
      · simp
        omega
    | wrapped ys g xs hx =>
      have hpos : 0 < xs.length := List.length_pos_iff.2 hx
      simp only [capacity, List.length_append, List.length_replicate, List.length_map]
      omega

theorem agrees_of_exec {l : List (Action ι α)} (h : Agrees s t) (hl : exec Lists.step t l = .ok u) :
    ∃ s', exec step s l = .ok s' ∧ Agrees s' u := by
  induction l generalizing s t with
  | nil => cases hl; exact ⟨s, rfl, h⟩
  | cons a l ih =>
    obtain ⟨v, hv, hl⟩ := exec_cons_eq_ok hl
    obtain ⟨s₁, hs₁, h₁⟩ := agrees_step h hv
    obtain ⟨s₂, hs₂, h₂⟩ := ih h₁ hl
    exact ⟨s₂, by rw [exec_cons_ok hs₁, hs₂], h₂⟩

/-- A queue that is moved hands its storage over. -/
theorem move_step {a : Action ι α} (ha : a = .moveConstruct i j ∨ a = .moveAssign i j)
    (hs : step s a = .ok s') : s'.queues.lookup i = s.queues.lookup j := by
  rcases ha with rfl | rfl
  · simp only [step] at hs
    split_ifs at hs
    obtain ⟨q, hq, hs⟩ := withQueue_eq_ok hs
    cases hs
    rw [hq, State.put, AList.lookup_insert]
  · obtain ⟨q, hq, hs⟩ := withQueue_eq_ok hs
    obtain ⟨old, hold, hs⟩ := withQueue_eq_ok hs
    obtain ⟨b, hb, rfl⟩ := lift_map_eq_ok hs
    rw [hq, State.put, AList.lookup_insert]

/-- A run of lists is a run of the queues: with the same results and contents, no access that is
wrong, and as many objects as have been constructed and not destroyed.  The offsets fit the size, and
a queue that is not moved changes its capacity only when it has no room. -/
theorem fifo {l : List (Action ι α)} (h : exec Lists.step .init l = .ok u) :
    ∃ s, exec step State.init l = .ok s ∧ s.results = u.results ∧
      (∀ i, Option.Rel (fun q xs => q.contents = xs ∧ q.size = xs.length ∧ WellFormed q)
        (s.queues.lookup i) (u.contents i)) ∧
      s.account.constructed = s.account.destroyed + total RawQueue.size s.queues ∧
      (∀ a s' i q q', step s a = .ok s' → s.queues.lookup i = some q → s'.queues.lookup i = some q' →
        i ∉ a.moves → q'.capacity ≠ q.capacity → q.capacity < q.size + a.added i) ∧
      ∀ a s' i j, a = .moveConstruct i j ∨ a = .moveAssign i j → step s a = .ok s' →
        s'.queues.lookup i = s.queues.lookup j := by
  obtain ⟨s, hs, hag⟩ := agrees_of_exec agrees_init h
  refine ⟨s, hs, hag.results, fun i => ?_, hag.balance,
    fun a s' i q q' hstep hq hq' hm hne => capacity_step hag hstep hq hq' hm hne,
    fun a s' i j ha hstep => move_step ha hstep⟩
  have hr := hag.rep i
  generalize s.queues.lookup i = x, u.contents i = y at hr
  cases hr with
  | none => exact .none
  | some hrep => exact .some ⟨hrep.contents_eq, hrep.size_eq, wellFormed_of_rep hrep⟩

theorem fifo_movedQueue : ∃ s, exec step (State.init : State ℕ ℕ) [.create 0 0, .pushBack 0 1,
      .append 0 [2, 3], .popFrontTo 0 2, .moveConstruct 1 0, .forEachItem 1 id] = .ok s ∧
    s.results = [.objects [1, 2], .objects [3]] := by
  have h : ∃ u, exec Lists.step (Lists.init : Lists ℕ ℕ) [.create 0 0, .pushBack 0 1,
      .append 0 [2, 3], .popFrontTo 0 2, .moveConstruct 1 0, .forEachItem 1 id] = .ok u ∧
    u.results = [.objects [1, 2], .objects [3]] := ⟨_, rfl, rfl⟩
  obtain ⟨u, hu, hres⟩ := h
  obtain ⟨s, hs, hres', -⟩ := fifo hu
  exact ⟨s, hs, hres'.trans hres⟩

end Corral.QueueObjects
