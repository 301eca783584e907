import Corral.CBPortal.Portals
import Corral.CBPortal.Protocol

/-!
# `CBPortal`: where a co_await stands

* `State.place`, `State.initiation`: what the task, the portals and the initiate function in progress
  have to do with one co_await;
* `Fits`: how this agrees with the protocol;
* `Follows`: the co_await follows the protocol, or it has no portals of its own, with one lemma for
  each thing that can happen to it;
* `Tracked`: every co_await does.
-/

namespace Corral.CBPortal

variable {E L P T V : Type*}

/-- Where a co_await stands: it has not begun or is over, the task is suspended, or the task is about
to take this result. -/
inductive Place (P V : Type*)
  | over
  | waiting (a : Await P) (cancelling : Bool) (st : ProxyStatus)
  | woken (a : Await P) (result : Option (P × V))

/-- The result that the task will take. -/
def State.result (s : State E P T V) (aw : Pending P V) : Option (P × V) :=
  match aw.await.awaiter with
  | .portal p => (s.value p).map fun v => (p, v)
  | .anyOf _ _ => aw.got

def State.placeOf (s : State E P T V) (number : ℕ) : Status P V → Place P V
  | .waiting aw =>
    if aw.number = number then
      .waiting aw.await aw.cancelling (s.proxyStatus aw.await.awaiter.first)
    else .over
  | .ready (some aw) => if aw.number = number then .woken aw.await (s.result aw) else .over
  | _ => .over

/-- The place of the co_await of the task with this number. -/
def State.place (s : State E P T V) (x : T) (number : ℕ) : Place P V :=
  s.placeOf number (s.status x)

/-- If the initiate function of the co_await is one of these, whether the task has gone on. -/
def inProgress [DecidableEq T] (l : List (Initiation T)) (x : T) (number : ℕ) : Option Bool :=
  (l.find? fun i => i.task = x ∧ i.number = number).map Initiation.completed

/-- If the initiate function of the co_await is in progress, whether the task has gone on. -/
def State.initiation [DecidableEq T] (s : State E P T V) (x : T) (number : ℕ) : Option Bool :=
  inProgress s.initiating x number

/-- The stages of the protocol, as they appear in the states of the portals. -/
inductive Fits (c : Bool) : Stage P V → Place P V → Option Bool → Prop
  | notStarted : Fits c .notStarted .over none
  | skipped : Fits c .skipped .over none
  | initiating {a : Await P} {r : Bool} : a.proxy = some (.inline c) → Fits c (.awaited r false)
      (.waiting a r (if r then .cancelPending else .scheduled)) (some false)
  | initiated {a : Await P} {r : Bool} : a.proxy = some (.inline c) → (c = true → r = false) →
      Fits c (.awaited r true) (.waiting a r .initiated) none
  | threw {r : Bool} : Fits c (.threw r) .over none
  | answered {a : Await P} {r b : Bool} {p : P} {v : V} : a.proxy = some (.inline c) →
      Fits c (.answered r b p v false) (.woken a (some (p, v))) (if b then none else some false)
  | taken {r b : Bool} {p : P} {v : V} :
      Fits c (.answered r b p v true) .over (if b then none else some true)
  | cancelled : Fits c .cancelled .over none

/-- A co_await without portals of its own, as far as the protocol is concerned. -/
structure Plain (es : List (Event P V)) (pl : Place P V) : Prop where
  notCancelled : .cancelFn ∉ es
  notInitiated : ∀ c, .initiated (.inline c) ∉ es
  notInline : ∀ a r st, pl = .waiting a r st → ∀ c, a.proxy ≠ some (.inline c)

/-- The co_await follows the protocol, or it has no portals of its own. -/
def Follows (es : List (Event P V)) (pl : Place P V) (i : Option Bool) : Prop :=
  (∃ c st, Told c es st ∧ Fits c st pl i) ∨ Plain es pl

variable {c r : Bool} {es : List (Event P V)} {pl : Place P V} {i : Option Bool} {a : Await P}
  {st : ProxyStatus} {p : P} {v : V}

/-- One more event, that has nothing to do with a cancellation function. -/
theorem Plain.concat {pl' : Place P V} (h : Plain es pl) (e : Event P V) (hc : e ≠ .cancelFn)
    (hi : ∀ c, e ≠ .initiated (.inline c))
    (hp : ∀ a r st, pl' = .waiting a r st → ∀ c, a.proxy ≠ some (.inline c)) :
    Plain (es ++ [e]) pl' := by
  refine ⟨fun hm => ?_, fun c hm => ?_, hp⟩
  · rcases List.mem_append.1 hm with hm | hm
    · exact h.notCancelled hm
    · exact hc (List.mem_singleton.1 hm).symm
  · rcases List.mem_append.1 hm with hm | hm
    · exact h.notInitiated c hm
    · exact hi c (List.mem_singleton.1 hm).symm

/-- An event that does not change whether the task waits. -/
theorem Plain.note {r' : Bool} {st' : ProxyStatus} (h : Plain es (.waiting a r st)) (e : Event P V)
    (hc : e ≠ .cancelFn) (hi : ∀ c, e ≠ .initiated (.inline c)) :
    Plain (es ++ [e]) (.waiting a r' st') := by
  refine h.concat e hc hi fun a' r' st' heq => ?_
  cases heq
  exact h.notInline a r st rfl

/-- An event that ends the wait. -/
theorem Plain.leave {pl' : Place P V} (h : Plain es pl) (e : Event P V) (hc : e ≠ .cancelFn)
    (hi : ∀ c, e ≠ .initiated (.inline c)) (hp : ∀ a r st, pl' ≠ .waiting a r st) :
    Plain (es ++ [e]) pl' :=
  h.concat e hc hi fun a r st heq => absurd heq (hp a r st)

theorem follows_nil : Follows ([] : List (Event P V)) .over none :=
  .inl ⟨true, .notStarted, told_nil, .notStarted⟩

/-- The co_await is skipped. -/
theorem follows_skip : Follows [(.skipped : Event P V)] .over none :=
  .inl ⟨true, .skipped, told_nil.concat .skip, .skipped⟩

/-- A co_await with portals of its own begins. -/
theorem follows_initiate (ha : a.proxy = some (.inline c)) :
    Follows [(.initiated (.inline c) : Event P V)] (.waiting a false .scheduled) (some false) :=
  .inl ⟨c, .awaited false false, told_nil.concat .initiate, .initiating ha⟩

/-- A co_await begins that has no portals of its own. -/
theorem follows_suspend (ha : ∀ c, a.proxy ≠ some (.inline c)) {es : List (Event P V)}
    (hes : es = [] ∨ es = [.initiated .external]) : Follows es (.waiting a r st) i := by
  refine .inr ⟨?_, fun c => ?_, fun a' r' st' heq => ?_⟩
  · rcases hes with rfl | rfl <;> simp
  · rcases hes with rfl | rfl <;> simp
  · cases heq
    exact ha

/-- Whoever waits on portals of its own follows the protocol. -/
theorem Follows.told (h : Follows es (.waiting a r st) i) (ha : a.proxy = some (.inline c)) :
    (Told c es (.awaited r false) ∧ st = (if r then .cancelPending else .scheduled) ∧
      i = some false) ∨
    (Told c es (.awaited r true) ∧ st = .initiated ∧ i = none ∧ (c = true → r = false)) := by
  rcases h with ⟨c', stage, ht, hf⟩ | hp
  · cases hf with
    | initiating hc =>
      rw [ha] at hc
      cases hc
      exact .inl ⟨ht, rfl, rfl⟩
    | initiated hc hr =>
      rw [ha] at hc
      cases hc
      exact .inr ⟨ht, rfl, rfl, hr⟩
  · exact absurd ha (hp.notInline a r st rfl c)

/-- Whoever waits on other portals does not. -/
theorem Follows.plain (h : Follows es (.waiting a r st) i) (ha : ∀ c, a.proxy ≠ some (.inline c)) :
    Plain es (.waiting a r st) := by
  rcases h with ⟨c', stage, ht, hf⟩ | hp
  · cases hf with
    | initiating hc => exact absurd hc (ha c')
    | initiated hc hr => exact absurd hc (ha c')
  · exact hp

/-- The cancellation is requested while the initiate function is in progress. -/
theorem Follows.request (h : Follows es (.waiting a r st) i) (hst : st ≠ .initiated) :
    Follows (es ++ [.requested]) (.waiting a true .cancelPending) i := by
  by_cases ha : ∃ c, a.proxy = some (.inline c)
  · obtain ⟨c, ha⟩ := ha
    rcases h.told ha with ⟨ht, -, rfl⟩ | ⟨-, hin, -⟩
    · exact .inl ⟨c, _, ht.concat .request, .initiating ha⟩
    · exact absurd hin hst
  · simp only [not_exists] at ha
    exact .inr ((h.plain ha).note _ nofun nofun)

/-- The cancellation is requested, and there is no cancellation function. -/
theorem Follows.refuse (h : Follows es (.waiting a r .initiated) i)
    (ha : a.proxy = some (.inline false)) :
    Follows (es ++ [.requested]) (.waiting a true .initiated) i := by
  rcases h.told ha with ⟨-, hst, -⟩ | ⟨ht, -, rfl, -⟩
  · cases r <;> cases hst
  · exact .inl ⟨false, _, ht.concat .request, .initiated ha nofun⟩

/-- The cancellation is requested, and confirmed after the call of the cancellation function. -/
theorem Follows.cancel (h : Follows es (.waiting a r .initiated) i)
    (ha : a.proxy = some (.inline true)) :
    Follows (es ++ [.requested] ++ [.cancelFn] ++ [.confirmed]) .over i := by
  rcases h.told ha with ⟨-, hst, -⟩ | ⟨ht, -, rfl, -⟩
  · cases r <;> cases hst
  · have ht : Told true _ _ := ht.concat .request
    exact .inl ⟨true, _, (ht.concat (.callCancelFn rfl)).concat .confirm, .cancelled⟩

/-- The cancellation of another co_await is confirmed. -/
theorem Follows.confirm (h : Follows es (.waiting a r st) i) (ha : ∀ c, a.proxy ≠ some (.inline c))
    {e : Event P V} (hc : e ≠ .cancelFn) (hi : ∀ c, e ≠ .initiated (.inline c)) {i' : Option Bool} :
    Follows (es ++ [e] ++ [.confirmed]) .over i' := by
  have hp : Plain (es ++ [e]) .over := (h.plain ha).leave e hc hi nofun
  exact .inr (hp.leave _ nofun nofun nofun)

/-- The initiate function returns, and the task goes on waiting. -/
theorem Follows.return (h : Follows es (.waiting a r st) (some false))
    (hst : st = .cancelPending → a.proxy = some (.inline false) ∨ ∀ c, a.proxy ≠ some (.inline c)) :
    Follows (es ++ [.returned]) (.waiting a r .initiated) none := by
  by_cases ha : ∃ c, a.proxy = some (.inline c)
  · obtain ⟨c, ha⟩ := ha
    rcases h.told ha with ⟨ht, hs, -⟩ | ⟨-, -, hi, -⟩
    · refine .inl ⟨c, _, ht.concat .return, .initiated ha fun hc => ?_⟩
      -- with a cancellation function, the cancellation is not pending
      cases r with
      | false => rfl
      | true =>
        rcases hst hs with hf | hn
        · rw [ha, hc] at hf
          cases hf
        · exact absurd ha (hn c)
    · cases hi
  · simp only [not_exists] at ha
    exact .inr ((h.plain ha).note _ nofun nofun)

/-- The initiate function returns, and the cancellation that has been requested is confirmed. -/
theorem Follows.returnCancel (h : Follows es (.waiting a r .cancelPending) (some false))
    (ha : a.proxy = some (.inline true)) :
    Follows (es ++ [.returned] ++ [.cancelFn] ++ [.confirmed]) .over none := by
  rcases h.told ha with ⟨ht, hst, -⟩ | ⟨-, hst, -⟩
  · cases r with
    | false => cases hst
    | true =>
      have ht : Told true _ _ := ht.concat .return
      exact .inl ⟨true, _, (ht.concat (.callCancelFn rfl)).concat .confirm, .cancelled⟩
  · cases hst

/-- The initiate function returns when the task has gone on. -/
theorem Follows.returnLate (h : Follows es pl (some true)) : Follows (es ++ [.returned]) pl none := by
  rcases h with ⟨c, stage, ht, hf⟩ | h
  · generalize hi : some true = i at hf
    cases hf with
    | @taken r b p v =>
      cases b with
      | false => exact .inl ⟨c, _, ht.concat .returnLate, .taken (b := true)⟩
      | true => cases hi
    | @answered a r b p v hc => cases b <;> cases hi
    | _ => cases hi
  · exact .inr (h.concat _ nofun nofun h.notInline)

/-- The initiate function throws. -/
theorem Follows.throw (h : Follows es (.waiting a r st) (some false)) :
    Follows (es ++ [.threw]) .over none := by
  by_cases ha : ∃ c, a.proxy = some (.inline c)
  · obtain ⟨c, ha⟩ := ha
    rcases h.told ha with ⟨ht, -⟩ | ⟨-, -, hi, -⟩
    · exact .inl ⟨c, _, ht.concat .throw, .threw⟩
    · cases hi
  · simp only [not_exists] at ha
    exact .inr ((h.plain ha).leave _ nofun nofun nofun)

/-- A callback is invoked. -/
theorem Follows.deliver (h : Follows es (.waiting a r st) i) (p : P) (v : V) :
    Follows (es ++ [.delivered p v]) (.woken a (some (p, v))) i := by
  by_cases ha : ∃ c, a.proxy = some (.inline c)
  · obtain ⟨c, ha⟩ := ha
    rcases h.told ha with ⟨ht, -, rfl⟩ | ⟨ht, -, rfl, -⟩
    · exact .inl ⟨c, _, ht.concat .deliver, .answered (b := false) ha⟩
    · exact .inl ⟨c, _, ht.concat .deliver, .answered (b := true) ha⟩
  · simp only [not_exists] at ha
    exact .inr ((h.plain ha).leave _ nofun nofun nofun)

/-- The task takes its result. -/
theorem Follows.resume (h : Follows es (.woken a (some (p, v))) i) :
    Follows (es ++ [.resumed p v]) .over (i.map fun _ => true) := by
  rcases h with ⟨c, stage, ht, hf⟩ | h
  · cases hf with
    | @answered _ r b _ _ hc =>
      refine .inl ⟨c, _, ht.concat .resume, ?_⟩
      cases b with
      | false => exact .taken (b := false)
      | true => exact .taken (b := true)
  · exact .inr (h.leave _ nofun nofun nofun)

end Corral.CBPortal
