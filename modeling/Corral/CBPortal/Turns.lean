import Corral.CBPortal.Places

/-!
# `CBPortal`: the co_awaits one by one

* `Tracked`: each co_await follows the protocol, and has not begun before its number is reached;
* `Tracked.turn`: what happens to one co_await does not matter to the others.
-/

namespace Corral.CBPortal

open ActionMachine

variable {E L P T V : Type*} [DecidableEq T] {s t u : State E P T V} {x y : T} {n m : ℕ} {p q : P}
  {v : V} {aw : Pending P V}

structure Tracked (s : State E P T V) : Prop where
  fresh : ∀ x n, s.awaits x ≤ n → s.course x n = [] ∧ s.place x n = .over ∧ s.initiation x n = none
  keys : (s.initiating.map fun i => (i.task, i.number)).Nodup
  follows : ∀ x n, Follows (s.course x n) (s.place x n) (s.initiation x n)

theorem tracked_init : Tracked (State.init : State E P T V) :=
  ⟨fun _ _ _ => ⟨rfl, rfl, rfl⟩, List.nodup_nil, fun _ _ => follows_nil⟩

/-! ### Places and courses -/

omit [DecidableEq T] in
theorem place_waiting (h : s.status x = .waiting aw) : s.place x aw.number =
    .waiting aw.await aw.cancelling (s.proxyStatus aw.await.awaiter.first) := by
  unfold State.place State.placeOf
  rw [h]
  exact if_pos rfl

omit [DecidableEq T] in
theorem place_ready (h : s.status x = .ready (some aw)) :
    s.place x aw.number = .woken aw.await (s.result aw) := by
  unfold State.place State.placeOf
  rw [h]
  exact if_pos rfl

omit [DecidableEq T] in
theorem place_of_not_suspended (h : (s.status x).isSuspended = false) (n : ℕ) :
    s.place x n = .over := by
  unfold State.place State.placeOf
  cases hx : s.status x with
  | waiting aw =>
    rw [hx] at h
    cases h
  | ready aw =>
    cases aw with
    | none => rfl
    | some aw =>
      rw [hx] at h
      cases h
  | _ => rfl

omit [DecidableEq T] in
/-- A task has one co_await at a time. -/
theorem place_waiting_of_ne (h : s.status x = .waiting aw) (hn : n ≠ aw.number) :
    s.place x n = .over := by
  unfold State.place State.placeOf
  rw [h]
  exact if_neg hn.symm

omit [DecidableEq T] in
theorem place_ready_of_ne (h : s.status x = .ready (some aw)) (hn : n ≠ aw.number) :
    s.place x n = .over := by
  unfold State.place State.placeOf
  rw [h]
  exact if_neg hn.symm

omit [DecidableEq T] in
/-- The place of a co_await depends on the status of the task, and on that of the proxy. -/
theorem place_congr (hst : t.status y = s.status y) (hnot : ∀ aw, s.status y ≠ .ready (some aw))
    (hps : ∀ aw, s.status y = .waiting aw →
      t.proxyStatus aw.await.awaiter.first = s.proxyStatus aw.await.awaiter.first) (m : ℕ) :
    t.place y m = s.place y m := by
  unfold State.place State.placeOf
  rw [hst]
  cases hy : s.status y with
  | waiting aw =>
    simp only
    rw [hps aw hy]
  | ready aw =>
    cases aw with
    | none => rfl
    | some aw => exact absurd hy (hnot aw)
  | _ => rfl

theorem course_record_self (s : State E P T V) (x : T) (n : ℕ) (e : Event P V) :
    (s.record x n e).course x n = s.course x n ++ [e] :=
  if_pos ⟨rfl, rfl⟩

/-! ### Initiate functions -/

theorem inProgress_cons_self (i : Initiation T) (l : List (Initiation T)) :
    inProgress (i :: l) i.task i.number = some i.completed := by
  simp [inProgress]

theorem inProgress_cons_of_ne (i : Initiation T) (l : List (Initiation T))
    (h : ¬ (x = i.task ∧ n = i.number)) : inProgress (i :: l) x n = inProgress l x n := by
  have hne : ¬ (i.task = x ∧ i.number = n) := fun ⟨h₁, h₂⟩ => h ⟨h₁.symm, h₂.symm⟩
  simp [inProgress, hne]

theorem inProgress_eq_none {l : List (Initiation T)}
    (h : (x, n) ∉ l.map fun i => (i.task, i.number)) : inProgress l x n = none := by
  have hnone : l.find? (fun i => i.task = x ∧ i.number = n) = none := by
    rw [List.find?_eq_none]
    intro i hi heq
    refine h (List.mem_map.2 ⟨i, hi, ?_⟩)
    obtain ⟨h₁, h₂⟩ := of_decide_eq_true heq
    rw [h₁, h₂]
  rw [inProgress, hnone, Option.map_none]

/-- A task goes on, and the initiate function of its co_await learns of it. -/
theorem inProgress_goesOn (l : List (Initiation T)) (x y : T) (n m : ℕ) :
    inProgress (l.map fun i : Initiation T =>
      if i.task = x ∧ i.number = n then { i with completed := true } else i) y m =
      if y = x ∧ m = n then (inProgress l y m).map fun _ => true else inProgress l y m := by
  induction l with
  | nil => split_ifs <;> rfl
  | cons i l ih =>
    rw [List.map_cons]
    by_cases hi : i.task = y ∧ i.number = m
    · obtain ⟨rfl, rfl⟩ := hi
      rw [inProgress_cons_self]
      by_cases hx : i.task = x ∧ i.number = n
      · rw [if_pos hx, if_pos hx]
        exact inProgress_cons_self { i with completed := true } _
      · rw [if_neg hx, if_neg hx]
        exact inProgress_cons_self i _
    · have hne : ¬ (y = i.task ∧ m = i.number) := fun ⟨h₁, h₂⟩ => hi ⟨h₁.symm, h₂.symm⟩
      have hkey : ∀ j : Initiation T, j.task = i.task → j.number = i.number →
          ¬ (y = j.task ∧ m = j.number) := by
        rintro j h₁ h₂ ⟨h₃, h₄⟩
        exact hne ⟨h₃.trans h₁, h₄.trans h₂⟩
      rw [inProgress_cons_of_ne i l hne, ← ih]
      refine inProgress_cons_of_ne _ _ (hkey _ ?_ ?_) <;> split_ifs <;> rfl

omit [DecidableEq T] in
/-- The initiate function in control. -/
theorem initiator_cases {i : Initiation T} {rest : List (Initiation T)}
    (h : s.initiator = some (i, rest)) : s.initiating = i :: rest := by
  unfold State.initiator at h
  split at h
  · cases h
  · rename_i j l hl
    split_ifs at h
    cases h
    exact hl

/-- What is known of the initiate function that is the last one to have begun. -/
theorem Tracked.initiation_head {i : Initiation T} {rest : List (Initiation T)} (ht : Tracked s)
    (h : s.initiating = i :: rest) : s.initiation i.task i.number = some i.completed ∧
      inProgress rest i.task i.number = none ∧
      (rest.map fun j => (j.task, j.number)).Nodup ∧
      ∀ y m, ¬ (y = i.task ∧ m = i.number) → inProgress rest y m = s.initiation y m := by
  have hk := ht.keys
  rw [h, List.map_cons, List.nodup_cons] at hk
  unfold State.initiation
  rw [h]
  exact ⟨inProgress_cons_self i rest, inProgress_eq_none hk.1, hk.2,
    fun y m hne => (inProgress_cons_of_ne i rest hne).symm⟩

/-! ### Other co_awaits -/

/-- Nothing but one co_await has changed. -/
theorem Tracked.turn (ht : Tracked s) (haw : ∀ y, s.awaits y ≤ t.awaits y) (hn : n < t.awaits x)
    (hcourse : ∀ y m, ¬ (y = x ∧ m = n) → t.course y m = s.course y m)
    (hplace : ∀ y m, ¬ (y = x ∧ m = n) → t.place y m = s.place y m)
    (hinit : ∀ y m, ¬ (y = x ∧ m = n) → t.initiation y m = s.initiation y m)
    (hkeys : (t.initiating.map fun i => (i.task, i.number)).Nodup)
    (h : Follows (t.course x n) (t.place x n) (t.initiation x n)) : Tracked t := by
  refine ⟨fun y m hm => ?_, hkeys, fun y m => ?_⟩
  · have hne : ¬ (y = x ∧ m = n) := by
      rintro ⟨rfl, rfl⟩
      omega
    rw [hcourse y m hne, hplace y m hne, hinit y m hne]
    exact ht.fresh y m ((haw y).trans hm)
  · by_cases hne : y = x ∧ m = n
    · obtain ⟨rfl, rfl⟩ := hne
      exact h
    · rw [hcourse y m hne, hplace y m hne, hinit y m hne]
      exact ht.follows y m

/-- No co_await has changed. -/
theorem Tracked.same (ht : Tracked s) (haw : t.awaits = s.awaits) (hcourse : t.course = s.course)
    (hplace : ∀ y m, t.place y m = s.place y m) (hinit : t.initiating = s.initiating) :
    Tracked t := by
  have hini : t.initiation = s.initiation := by
    unfold State.initiation
    rw [hinit]
  refine ⟨fun y m hm => ?_, ?_, fun y m => ?_⟩
  · rw [hcourse, hplace, hini]
    exact ht.fresh y m (haw ▸ hm)
  · rw [hinit]
    exact ht.keys
  · rw [hcourse, hplace, hini]
    exact ht.follows y m

/-- The status of one task changes, in its co_await with this number. -/
theorem Tracked.turn_status {st : Status P V} (ht : Tracked s) (hc : Calm s)
    (hst : t.status = Function.update s.status x st) (hold : ∀ m, m ≠ n → s.place x m = .over)
    (hnew : ∀ m, m ≠ n → t.place x m = .over)
    (hps : ∀ y aw, y ≠ x → s.status y = .waiting aw →
      t.proxyStatus aw.await.awaiter.first = s.proxyStatus aw.await.awaiter.first)
    (haw : ∀ y, s.awaits y ≤ t.awaits y) (hn : n < t.awaits x)
    (hcourse : ∀ y m, ¬ (y = x ∧ m = n) → t.course y m = s.course y m)
    (hinit : ∀ y m, ¬ (y = x ∧ m = n) → t.initiation y m = s.initiation y m)
    (hkeys : (t.initiating.map fun i => (i.task, i.number)).Nodup)
    (h : Follows (t.course x n) (t.place x n) (t.initiation x n)) : Tracked t := by
  refine ht.turn haw hn hcourse (fun y m hne => ?_) hinit hkeys h
  by_cases hy : y = x
  · subst hy
    have hm : m ≠ n := fun hm => hne ⟨rfl, hm⟩
    rw [hold m hm, hnew m hm]
  · refine place_congr ?_ (hc y) (fun aw => hps y aw hy) m
    rw [hst, Function.update_of_ne hy]

/-- A task that is not suspended on portals gets another status like that. -/
theorem Tracked.idle {st : Status P V} (ht : Tracked s) (hc : Calm s)
    (hx : (s.status x).isSuspended = false) (hs : st.isSuspended = false)
    (hst : t.status = Function.update s.status x st) (hps : t.proxyStatus = s.proxyStatus)
    (haw : t.awaits = s.awaits) (hcourse : t.course = s.course)
    (hinit : t.initiating = s.initiating) : Tracked t := by
  refine ht.same haw hcourse (fun y m => ?_) hinit
  by_cases hy : y = x
  · subst hy
    have ht : (t.status y).isSuspended = false := by rwa [hst, Function.update_self]
    rw [place_of_not_suspended hx, place_of_not_suspended ht]
  · refine place_congr ?_ (hc y) (fun aw _ => by rw [hps]) m
    rw [hst, Function.update_of_ne hy]

end Corral.CBPortal
