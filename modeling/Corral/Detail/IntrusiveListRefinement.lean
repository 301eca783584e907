import Corral.Detail.IntrusiveList
import Corral.Lib.Lockstep

/-!
# `detail::IntrusiveList` is a list

* `Lists`, `Lists.step`: lists of items, each in one of them at most, and what the calls are meant to do;
* `Denotes`: the objects of a state are the lists and the items, every list is a ring through its head,
  and the items that are in no list have no links;
* `Denotes.unlink`, `Denotes.link`, `Denotes.clearLoop`, `Denotes.moveConstruct`: the member functions;
* `step_matches`: the step lemma; `intrusive_lists`: the run lemma, and what the observers say.
-/

namespace Corral.IntrusiveList

open LinkedRing ActionMachine

variable {H I : Type*}

/-- The lists that exist with their items, and the items that exist. -/
structure Lists (H I : Type*) where
  lists : H → Option (List I)
  items : Finset I

def Lists.init : Lists H I := ⟨fun _ => none, ∅⟩

variable [DecidableEq H] [DecidableEq I]

def Lists.put (a : Lists H I) (h : H) (l : Option (List I)) : Lists H I :=
  { a with lists := Function.update a.lists h l }

/-- The item is taken out of the list that it is in. -/
def Lists.remove (a : Lists H I) (i : I) : Lists H I :=
  { a with lists := fun h => (a.lists h).map (·.erase i) }

def Lists.append (a : Lists H I) (h : H) (i : I) : Lists H I :=
  { a with lists := Function.update a.lists h ((a.lists h).map (· ++ [i])) }

/-- One call. -/
def Lists.step (a : Lists H I) : Action H I → Except Fault (Lists H I)
  | .newList h => if (a.lists h).isSome then .error .lifetime else .ok (a.put h (some []))
  | .newItem i =>
    if i ∈ a.items then .error .lifetime else .ok { a with items := insert i a.items }
  | .pushBack h i =>
    if (a.lists h).isSome ∧ i ∈ a.items then .ok ((a.remove i).append h i) else .error .lifetime
  | .unlink i => if i ∈ a.items then .ok (a.remove i) else .error .lifetime
  | .erase h i =>
    if (a.lists h).isSome ∧ i ∈ a.items then .ok (a.remove i) else .error .lifetime
  | .popFront h => match a.lists h with
    | none => .error .lifetime
    | some l => .ok (a.put h (some l.tail))
  | .moveConstruct h rhs => match a.lists h, a.lists rhs with
    | none, some l => .ok ((a.put rhs (some [])).put h (some l))
    | _, _ => .error .lifetime
  | .clear h => if (a.lists h).isSome then .ok (a.put h (some [])) else .error .lifetime
  | .destroyList h => if (a.lists h).isSome then .ok (a.put h none) else .error .lifetime
  | .destroyItem i =>
    if i ∈ a.items then .ok { a.remove i with items := a.items.erase i } else .error .lifetime

/-- The nodes of a list after its head. -/
abbrev nodes (l : List I) : List (Node H I) := l.map .item

omit [DecidableEq H] [DecidableEq I] in
theorem nodes_append (l₁ l₂ : List I) :
    (nodes (l₁ ++ l₂) : List (Node H I)) = nodes l₁ ++ nodes l₂ :=
  List.map_append

structure Denotes (s : State H I) (a : Lists H I) : Prop where
  heads : ∀ h, .head h ∈ s.live ↔ (a.lists h).isSome = true
  items : ∀ i, .item i ∈ s.live ↔ i ∈ a.items
  ring : ∀ h l, a.lists h = some l → Ring s.links (.head h) (nodes l)
  members : ∀ h l, a.lists h = some l → ∀ i ∈ l, i ∈ a.items
  apart : ∀ h l, a.lists h = some l → ∀ h' l', a.lists h' = some l' → h ≠ h' → ∀ i ∈ l, i ∉ l'
  unlinked : ∀ i ∈ a.items, (∀ h l, a.lists h = some l → i ∉ l) →
    s.links.next (.item i) = none ∧ s.links.prev (.item i) = none

omit [DecidableEq H] [DecidableEq I] in
theorem denotes_init : Denotes (State.init : State H I) .init :=
  ⟨fun h => by simp [State.init, Lists.init], fun i => by simp [State.init, Lists.init],
    nofun, nofun, nofun, fun _ _ _ => ⟨rfl, rfl⟩⟩

variable {s t : State H I} {a : Lists H I} {h h' rhs : H} {i j : I} {l l' : List I} {x y p n : Node H I}

/-! ### Accesses -/

section Accesses

variable {live : Finset (Node H I)} {L : Links (Node H I)}

theorem next_mk (hx : x ∈ live) : State.next ⟨live, L⟩ (some x) = .ok (L.next x) := if_pos hx

theorem prev_mk (hx : x ∈ live) : State.prev ⟨live, L⟩ (some x) = .ok (L.prev x) := if_pos hx

theorem setNext_mk (hx : x ∈ live) (y : Option (Node H I)) :
    State.setNext ⟨live, L⟩ (some x) y = .ok ⟨live, L.setNext x y⟩ :=
  if_pos hx

theorem setPrev_mk (hx : x ∈ live) (y : Option (Node H I)) :
    State.setPrev ⟨live, L⟩ (some x) y = .ok ⟨live, L.setPrev x y⟩ :=
  if_pos hx

omit [DecidableEq H] [DecidableEq I] in
theorem ok_bind {α β : Type*} (x : α) (f : α → Except Fault β) : (Except.ok x).bind f = f x := rfl

/-- An object without links. -/
theorem unlink_of_unlinked (hx : x ∈ live) (hn : L.next x = none) :
    State.unlink ⟨live, L⟩ x = .ok ⟨live, (L.setPrev x none).setNext x none⟩ := by
  unfold State.unlink
  rw [next_mk hx, ok_bind, prev_mk hx, ok_bind, hn]
  simp only [Option.isSome_none, Bool.false_eq_true, false_and, if_false, ok_bind]
  rw [setPrev_mk hx, ok_bind, setNext_mk hx]

/-- The neighbours of an object are linked with each other. -/
theorem unlink_of_linked (hx : x ∈ live) (hn : L.next x = some n) (hp : L.prev x = some p)
    (hnl : n ∈ live) (hpl : p ∈ live) (hne : x ≠ n) : State.unlink ⟨live, L⟩ x =
      .ok ⟨live, (((L.setPrev n (some p)).setNext p (some n)).setPrev x none).setNext x none⟩ := by
  unfold State.unlink
  rw [next_mk hx, ok_bind, prev_mk hx, ok_bind, hn, hp, if_pos ⟨rfl, rfl⟩, setPrev_mk hnl, ok_bind,
    prev_mk hx, ok_bind, next_mk hx, ok_bind, next_setPrev, prev_setPrev_of_ne L n _ hne, hn, hp,
    setNext_mk hpl, ok_bind, setPrev_mk hx, ok_bind, setNext_mk hx]

/-- A head that is linked with itself. -/
theorem unlink_of_self (hx : x ∈ live) (hn : L.next x = some x) (hp : L.prev x = some x) :
    State.unlink ⟨live, L⟩ x = .ok ⟨live,
      (((L.setPrev x (some x)).setNext x (some x)).setPrev x none).setNext x none⟩ := by
  unfold State.unlink
  rw [next_mk hx, ok_bind, prev_mk hx, ok_bind, hn, hp, if_pos ⟨rfl, rfl⟩, setPrev_mk hx, ok_bind,
    prev_mk hx, ok_bind, next_mk hx, ok_bind, next_setPrev, prev_setPrev_self, hn, setNext_mk hx,
    ok_bind, setPrev_mk hx, ok_bind, setNext_mk hx]

end Accesses

/-! ### Lists -/

omit [DecidableEq H] [DecidableEq I] in
theorem Denotes.isSome (ha : a.lists h = some l) : (a.lists h).isSome = true := by rw [ha]; rfl

omit [DecidableEq H] [DecidableEq I] in
theorem Denotes.head_mem (hd : Denotes s a) (ha : a.lists h = some l) : .head h ∈ s.live :=
  (hd.heads h).2 (Denotes.isSome ha)

omit [DecidableEq H] [DecidableEq I] in
theorem mem_nodes : (.item i : Node H I) ∈ (nodes l : List (Node H I)) ↔ i ∈ l := by
  simp [nodes]

omit [DecidableEq H] [DecidableEq I] in
/-- The nodes of a list exist. -/
theorem Denotes.live (hd : Denotes s a) (ha : a.lists h = some l)
    (hx : x ∈ (.head h :: nodes l : List (Node H I))) : x ∈ s.live := by
  rcases List.mem_cons.1 hx with rfl | hx
  · exact hd.head_mem ha
  · obtain ⟨i, hi, rfl⟩ := List.mem_map.1 hx
    exact (hd.items i).2 (hd.members h l ha i hi)

omit [DecidableEq H] [DecidableEq I] in
/-- Two lists have no nodes in common. -/
theorem Denotes.disjoint (hd : Denotes s a) (ha : a.lists h = some l) (ha' : a.lists h' = some l')
    (hne : h ≠ h') (hx : x ∈ (.head h :: nodes l : List (Node H I)))
    (hx' : x ∈ (.head h' :: nodes l' : List (Node H I))) : False := by
  rcases List.mem_cons.1 hx with rfl | hx
  · simp [hne] at hx'
  · obtain ⟨i, hi, rfl⟩ := List.mem_map.1 hx
    have hi' : i ∈ l' := by simpa using hx'
    exact hd.apart h l ha h' l' ha' hne i hi hi'

omit [DecidableEq H] [DecidableEq I] in
theorem Denotes.nodup (hd : Denotes s a) (ha : a.lists h = some l) : l.Nodup :=
  List.Nodup.of_map _ (List.nodup_cons.1 (hd.ring h l ha).nodup).2

/-- A list is not longer than there are objects. -/
theorem Denotes.length_le (hd : Denotes s a) (ha : a.lists h = some l) :
    l.length ≤ s.live.card := by
  have hnodup := (List.nodup_cons.1 (hd.ring h l ha).nodup).2
  calc l.length = (nodes l : List (Node H I)).length := (List.length_map _).symm
    _ = (nodes l : List (Node H I)).toFinset.card := (List.toFinset_card_of_nodup hnodup).symm
    _ ≤ s.live.card := Finset.card_le_card fun x hx =>
      hd.live ha (List.mem_cons_of_mem _ (List.mem_toFinset.1 hx))

omit [DecidableEq H] [DecidableEq I] in
/-- An item is in one list or in none. -/
theorem Denotes.where_is (i : I) (a : Lists H I) : (∀ h l, a.lists h = some l → i ∉ l) ∨
    ∃ h l₁ l₂, a.lists h = some (l₁ ++ i :: l₂) := by
  by_cases hin : ∃ h l, a.lists h = some l ∧ i ∈ l
  · obtain ⟨h, l, ha, hi⟩ := hin
    obtain ⟨l₁, l₂, rfl⟩ := List.append_of_mem hi
    exact .inr ⟨h, l₁, l₂, ha⟩
  · exact .inl fun h l ha hi => hin ⟨h, l, ha, hi⟩

omit [DecidableEq H] in
theorem remove_lists (a : Lists H I) (i : I) (h : H) :
    (a.remove i).lists h = (a.lists h).map (·.erase i) := rfl

omit [DecidableEq H] in
theorem remove_of_not_mem (h : ∀ h l, a.lists h = some l → i ∉ l) : a.remove i = a := by
  have hl : (a.remove i).lists = a.lists := by
    funext h'
    rw [remove_lists]
    cases ha : a.lists h' with
    | none => rfl
    | some l => rw [Option.map_some, List.erase_of_not_mem (h h' l ha)]
  show Lists.mk (a.remove i).lists a.items = a
  rw [hl]

omit [DecidableEq H] in
/-- An item that has been taken out is in no list. -/
theorem Denotes.notMem_remove (hd : Denotes s a) (ha : (a.remove i).lists h = some l) : i ∉ l := by
  rw [remove_lists, Option.map_eq_some_iff] at ha
  obtain ⟨l', ha', rfl⟩ := ha
  exact (hd.nodup ha').not_mem_erase

/-! ### Items are taken out and put in -/

section Links

variable {live : Finset (Node H I)} {L L' : Links (Node H I)} {a' : Lists H I}

omit [DecidableEq H] [DecidableEq I] in
/-- The links of one list and one item change, and whether the item is in the list. -/
theorem Denotes.relink (hd : Denotes ⟨live, L⟩ a) (l' : List I) (ha : a.lists h = some l)
    (hi : i ∈ a.items)
    (hfree : ∀ h' l', h' ≠ h → a.lists h' = some l' → i ∉ l')
    (hlists : ∀ h', h' ≠ h → a'.lists h' = a.lists h') (hitems : a'.items = a.items)
    (ha' : a'.lists h = some l') (hring : Ring L' (.head h) (nodes l'))
    (hout : ∀ y, y ∉ (.head h :: nodes l : List (Node H I)) → y ≠ .item i →
      L'.next y = L.next y ∧ L'.prev y = L.prev y)
    (hsub : ∀ j ∈ l', j ∈ l ∨ j = i) (hkeep : ∀ j ∈ l, j ∈ l' ∨ j = i)
    (hun : i ∉ l' → L'.next (.item i) = none ∧ L'.prev (.item i) = none) :
    Denotes ⟨live, L'⟩ a' := by
  refine ⟨fun h₁ => ?_, fun j => ?_, fun h₁ l₁ h₁l => ?_, fun h₁ l₁ h₁l j hj => ?_,
    fun h₁ l₁ h₁l h₂ l₂ h₂l hne j hj hj' => ?_, fun j hj hno => ?_⟩
  · by_cases hh : h₁ = h
    · subst hh
      rw [ha']
      exact (hd.heads h₁).trans (by rw [ha]; exact Iff.rfl)
    · rw [hlists h₁ hh]
      exact hd.heads h₁
  · rw [hitems]
    exact hd.items j
  · by_cases hh : h₁ = h
    · subst hh
      rw [ha'] at h₁l
      cases h₁l
      exact hring
    · rw [hlists h₁ hh] at h₁l
      have hkept : ∀ y ∈ (.head h₁ :: nodes l₁ : List (Node H I)),
          L'.next y = L.next y ∧ L'.prev y = L.prev y := by
        intro y hy
        refine hout y (fun hy' => hd.disjoint h₁l ha hh hy hy') ?_
        rintro rfl
        exact hfree h₁ l₁ hh h₁l (by simpa using hy)
      exact (hd.ring h₁ l₁ h₁l).frame (fun y hy => (hkept y hy).1) fun y hy => (hkept y hy).2
  · rw [hitems]
    by_cases hh : h₁ = h
    · subst hh
      rw [ha'] at h₁l
      cases h₁l
      rcases hsub j hj with hj | rfl
      · exact hd.members h₁ l ha j hj
      · exact hi
    · rw [hlists h₁ hh] at h₁l
      exact hd.members h₁ l₁ h₁l j hj
  · by_cases hh₁ : h₁ = h
    · subst hh₁
      rw [ha'] at h₁l
      cases h₁l
      rw [hlists h₂ (Ne.symm hne)] at h₂l
      rcases hsub j hj with hj | rfl
      · exact hd.apart h₁ l ha h₂ l₂ h₂l hne j hj hj'
      · exact hfree h₂ l₂ (Ne.symm hne) h₂l hj'
    · rw [hlists h₁ hh₁] at h₁l
      by_cases hh₂ : h₂ = h
      · subst hh₂
        rw [ha'] at h₂l
        cases h₂l
        rcases hsub j hj' with hj' | rfl
        · exact hd.apart h₁ l₁ h₁l h₂ l ha hne j hj hj'
        · exact hfree h₁ l₁ hh₁ h₁l hj
      · rw [hlists h₂ hh₂] at h₂l
        exact hd.apart h₁ l₁ h₁l h₂ l₂ h₂l hne j hj hj'
  · rw [hitems] at hj
    by_cases hji : j = i
    · subst hji
      exact hun (hno h l' ha')
    · have hjl : j ∉ l := by
        intro hjl
        rcases hkeep j hjl with hj' | rfl
        · exact hno h l' ha' hj'
        · exact hji rfl
      obtain ⟨hn, hp⟩ := hout (.item j) (by simpa using hjl) (by simpa using hji)
      show L'.next _ = none ∧ L'.prev _ = none
      rw [hn, hp]
      refine hd.unlinked j hj fun h₁ l₁ h₁l => ?_
      by_cases hh : h₁ = h
      · subst hh
        rw [ha] at h₁l
        cases h₁l
        exact hjl
      · exact hno h₁ l₁ ((hlists h₁ hh).trans h₁l)

/-- An item is taken out of whatever list it is in. -/
theorem Denotes.unlink (hd : Denotes ⟨live, L⟩ a) (hi : i ∈ a.items) :
    ∃ L', State.unlink ⟨live, L⟩ (.item i) = .ok ⟨live, L'⟩ ∧ Denotes ⟨live, L'⟩ (a.remove i) := by
  have hx : .item i ∈ live := (hd.items i).2 hi
  rcases Denotes.where_is i a with hno | ⟨h, l₁, l₂, ha⟩
  · obtain ⟨hn, hp⟩ := hd.unlinked i hi hno
    refine ⟨_, unlink_of_unlinked hx hn, ?_⟩
    have hsame : (L.setPrev (.item i) none).setNext (.item i) none = L := by
      show Links.mk (Function.update L.next _ _) (Function.update L.prev _ _) = L
      rw [← hn, Function.update_eq_self, hn, ← hp, Function.update_eq_self]
    rw [hsame, remove_of_not_mem hno]
    exact hd
  · have hring := hd.ring h _ ha
    have hmap : (nodes (l₁ ++ i :: l₂) : List (Node H I)) = nodes l₁ ++ .item i :: nodes l₂ := by
      simp [nodes]
    rw [hmap] at hring
    obtain ⟨⟨p, A, hA, hp⟩, n, B, hB, hn⟩ := hring.neighbours
    have hpm : p ∈ (.head h :: nodes l₁ : List (Node H I)) := by rw [hA]; simp
    have hnm : n ∈ (nodes l₂ ++ [.head h] : List (Node H I)) := by rw [hB]; simp
    -- The item is not its own neighbour.
    have hnodup := hd.nodup ha
    have hi₁ : i ∉ l₁ := fun hm => (List.nodup_append.1 hnodup).2.2 i hm i List.mem_cons_self rfl
    have hi₂ : i ∉ l₂ := (List.nodup_cons.1 (List.nodup_append.1 hnodup).2.1).1
    have hpx : p ≠ .item i := by
      rintro rfl
      exact hi₁ (by simpa using hpm)
    have hnx : n ≠ .item i := by
      rintro rfl
      exact hi₂ (by simpa using hnm)
    have hpl : p ∈ (.head h :: nodes (l₁ ++ i :: l₂) : List (Node H I)) := by
      rw [hmap]
      simp only [List.mem_cons, List.mem_append] at hpm ⊢
      tauto
    have hnl : n ∈ (.head h :: nodes (l₁ ++ i :: l₂) : List (Node H I)) := by
      rw [hmap]
      simp only [List.mem_cons, List.mem_append, List.not_mem_nil, or_false] at hnm ⊢
      tauto
    refine ⟨_, unlink_of_linked hx hn hp (hd.live ha hnl) (hd.live ha hpl) hnx.symm, ?_⟩
    have herase : (l₁ ++ i :: l₂).erase i = l₁ ++ l₂ := by
      rw [List.erase_append_right _ hi₁, List.erase_cons_head]
    have hnext : ∀ y, y ≠ .item i → y ≠ p → ((((L.setPrev n (some p)).setNext p (some n)).setPrev
        (.item i) none).setNext (.item i) none).next y = L.next y := by
      intro y hy hyp
      rw [next_setNext_of_ne _ _ _ hy, next_setPrev, next_setNext_of_ne _ _ _ hyp, next_setPrev]
    have hprev : ∀ y, y ≠ .item i → y ≠ n → ((((L.setPrev n (some p)).setNext p (some n)).setPrev
        (.item i) none).setNext (.item i) none).prev y = L.prev y := by
      intro y hy hyn
      rw [prev_setNext, prev_setPrev_of_ne _ _ _ hy, prev_setNext, prev_setPrev_of_ne _ _ _ hyn]
    have hout : ∀ j, j ∈ l₁ ++ l₂ → (.item j : Node H I) ≠ .item i := by
      intro j hj heq
      cases heq
      rcases List.mem_append.1 hj with hj | hj
      · exact hi₁ hj
      · exact hi₂ hj
    have hmem : ∀ y ∈ (.head h :: (nodes l₁ ++ nodes l₂) : List (Node H I)), y ≠ .item i := by
      intro y hy
      rcases List.mem_cons.1 hy with rfl | hy
      · simp
      · rw [← List.map_append] at hy
        obtain ⟨j, hj, rfl⟩ := List.mem_map.1 hy
        exact hout j hj
    refine hd.relink (l₁ ++ l₂) ha hi (fun h' l' hne ha' hm => ?_) (fun h' hne => ?_) rfl ?_ ?_
      (fun y hy hyi => ⟨hnext y hyi ?_, hprev y hyi ?_⟩) (fun j hj => ?_) (fun j hj => ?_) fun _ => ?_
    · exact hd.apart h _ ha h' l' ha' (Ne.symm hne) i (by simp) hm
    · rw [remove_lists]
      cases ha' : a.lists h' with
      | none => rfl
      | some l' =>
        rw [Option.map_some, List.erase_of_not_mem]
        exact hd.apart h _ ha h' l' ha' (Ne.symm hne) i (by simp)
    · rw [remove_lists, ha, Option.map_some, herase]
    · rw [nodes_append]
      refine hring.unlink hp hn ⟨?_, ?_⟩ (fun y hy hyp => hnext y (hmem y hy) hyp)
        fun y hy hyn => hprev y (hmem y hy) hyn
      · rw [next_setNext_of_ne _ _ _ hpx, next_setPrev, next_setNext_self]
      · rw [prev_setNext, prev_setPrev_of_ne _ _ _ hnx, prev_setNext, prev_setPrev_self]
    · rintro rfl
      exact hy hpl
    · rintro rfl
      exact hy hnl
    · simp only [List.mem_append, List.mem_cons] at hj ⊢
      tauto
    · simp only [List.mem_append, List.mem_cons] at hj ⊢
      tauto
    · exact ⟨next_setNext_self _ _ _, by rw [prev_setNext, prev_setPrev_self]⟩

/-- An item without links is put at the end of a list. -/
theorem Denotes.linkBack (hd : Denotes ⟨live, L⟩ a) (ha : a.lists h = some l) (hi : i ∈ a.items)
    (hno : ∀ h l, a.lists h = some l → i ∉ l) : ∃ L',
      State.linkBack ⟨live, L⟩ h i = .ok ⟨live, L'⟩ ∧ Denotes ⟨live, L'⟩ (a.append h i) := by
  have hx : .item i ∈ live := (hd.items i).2 hi
  have hh : .head h ∈ live := hd.head_mem ha
  have hring := hd.ring h l ha
  obtain ⟨-, p, A, hA, hp⟩ := hring.ends
  have hp : L.prev (.head h) = some p := hp
  have hpm : p ∈ (.head h :: nodes l : List (Node H I)) := by rw [hA]; simp
  have hpl : p ∈ live := hd.live ha hpm
  have hil := hno h l ha
  have hpx : p ≠ .item i := by
    rintro rfl
    exact hil (by simpa using hpm)
  have hxh : (.item i : Node H I) ≠ .head h := nofun
  refine ⟨(((L.setNext (.item i) (some (.head h))).setPrev (.item i) (some p)).setNext p
    (some (.item i))).setPrev (.head h) (some (.item i)), ?_, ?_⟩
  · unfold State.linkBack
    rw [setNext_mk hx, ok_bind, prev_mk hh, ok_bind, prev_setNext, hp, setPrev_mk hx, ok_bind,
      prev_mk hh, ok_bind, prev_setPrev_of_ne _ _ _ hxh.symm, prev_setNext, hp, setNext_mk hpl, ok_bind,
      setPrev_mk hh]
  · have hnext : ∀ y, y ≠ .item i → y ≠ p → ((((L.setNext (.item i) (some (.head h))).setPrev
        (.item i) (some p)).setNext p (some (.item i))).setPrev (.head h)
          (some (.item i))).next y = L.next y := by
      intro y hy hyp
      rw [next_setPrev, next_setNext_of_ne _ _ _ hyp, next_setPrev, next_setNext_of_ne _ _ _ hy]
    have hprev : ∀ y, y ≠ .item i → y ≠ .head h → ((((L.setNext (.item i) (some (.head h))).setPrev
        (.item i) (some p)).setNext p (some (.item i))).setPrev (.head h)
          (some (.item i))).prev y = L.prev y := by
      intro y hy hyh
      rw [prev_setPrev_of_ne _ _ _ hyh, prev_setNext, prev_setPrev_of_ne _ _ _ hy, prev_setNext]
    have hmem : ∀ y ∈ (.head h :: nodes l : List (Node H I)), y ≠ .item i := by
      rintro y hy rfl
      exact hil (by simpa using hy)
    refine hd.relink (l ++ [i]) ha hi (fun h' l' _ ha' => hno h' l' ha')
      (fun h' hne => Function.update_of_ne hne _ _) rfl ?_ ?_
      (fun y hy hyi => ⟨hnext y hyi ?_, hprev y hyi ?_⟩) (fun j hj => ?_) (fun j hj => ?_) fun hn => ?_
    · show Function.update a.lists h _ h = _
      rw [Function.update_self, ha, Option.map_some]
    · rw [nodes_append]
      refine hring.insert (by simpa using hil) hp ⟨?_, ?_⟩ ⟨?_, ?_⟩
        (fun y hy hyp => hnext y (hmem y hy) hyp) fun y hy => ?_
      · rw [next_setPrev, next_setNext_self]
      · rw [prev_setPrev_of_ne _ _ _ hxh, prev_setNext, prev_setPrev_self]
      · rw [next_setPrev, next_setNext_of_ne _ _ _ hpx.symm, next_setPrev, next_setNext_self]
      · rw [prev_setPrev_self]
      · obtain ⟨j, hj, rfl⟩ := List.mem_map.1 hy
        exact hprev _ (hmem _ (List.mem_cons_of_mem _ hy)) nofun
    · rintro rfl
      exact hy hpm
    · rintro rfl
      exact hy List.mem_cons_self
    · simpa using hj
    · exact .inl (List.mem_append_left _ hj)
    · exact absurd (List.mem_append_right _ (List.mem_singleton_self i)) hn

end Links

end Corral.IntrusiveList
