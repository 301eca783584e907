import Corral.Detail.IntrusiveListRefinement

/-!
# `detail::IntrusiveList`: runs

* `Denotes.clearLoop`, `Denotes.moveConstruct` and the others: the calls, on the lists that a state denotes;
* `step_matches`: the step lemma;
* `intrusive_lists`: in every run the links are those of the lists, and the observers tell what is in
  them.
-/

namespace Corral.IntrusiveList

open LinkedRing ActionMachine

variable {H I : Type*} [DecidableEq H] [DecidableEq I] {s t : State H I} {a a' : Lists H I}
  {h h' rhs : H} {i j : I} {l l' : List I} {live : Finset (Node H I)} {L : Links (Node H I)}

/-! ### Observers -/

theorem Denotes.empty (hd : Denotes s a) (ha : a.lists h = some l) :
    s.empty h = .ok (decide (l = [])) := by
  have hiff := (hd.ring h l ha).next_eq_some_self_iff
  unfold State.empty
  rw [next_mk (hd.head_mem ha)]
  show Except.ok (decide (s.links.next (.head h) = some (.head h))) = _
  congr 1
  rw [decide_eq_decide, hiff, List.map_eq_nil_iff]

omit [DecidableEq H] [DecidableEq I] in
/-- The first node of a list. -/
theorem Denotes.first (hd : Denotes s a) (ha : a.lists h = some (i :: l)) :
    s.links.next (.head h) = some (.item i) :=
  ((List.isChain_cons_cons.1 (hd.ring h _ ha).path).1).1

omit [DecidableEq H] [DecidableEq I] in
/-- What follows an item in its list. -/
theorem Denotes.second (hd : Denotes s a) (ha : a.lists h = some (i :: l)) :
    s.links.next (.item i) = (nodes l ++ [.head h] : List (Node H I)).head? := by
  have hpath := (List.isChain_cons_cons.1 (hd.ring h _ ha).path).2
  cases l with
  | nil => exact (List.isChain_cons_cons.1 hpath).1.1
  | cons j l => exact (List.isChain_cons_cons.1 hpath).1.1

theorem Denotes.containsOneItem (hd : Denotes s a) (ha : a.lists h = some l) :
    s.containsOneItem h = .ok (decide (l.length = 1)) := by
  unfold State.containsOneItem
  rw [hd.empty ha, ok_bind]
  cases l with
  | nil => rfl
  | cons i l =>
    rw [if_neg (by simp), next_mk (hd.head_mem ha), ok_bind, hd.first ha,
      next_mk ((hd.items i).2 (hd.members h _ ha i List.mem_cons_self)), hd.second ha]
    cases l with
    | nil => simp [Except.map, nodes]
    | cons j l => simp [Except.map, nodes]

/-- The iterators lead through the items of the list. -/
theorem items_of_isChain {x : Node H I} (hx : x ∈ live)
    (hlive : ∀ i ∈ l, .item i ∈ live)
    (hpath : (x :: (nodes l ++ [.head h] : List (Node H I))).IsChain L.Linked) {n : ℕ}
    (hn : l.length ≤ n) : State.items ⟨live, L⟩ h n (L.next x) = .ok (some l) := by
  induction l generalizing x n with
  | nil =>
    rw [(List.isChain_cons_cons.1 hpath).1.1]
    cases n <;> simp [State.items]
  | cons i l ih =>
    obtain ⟨hxi, hpath⟩ := List.isChain_cons_cons.1 hpath
    have hi : .item i ∈ live := hlive i List.mem_cons_self
    rw [hxi.1]
    cases n with
    | zero => simp at hn
    | succ n =>
      have hrest := ih hi (fun j hj => hlive j (List.mem_cons_of_mem i hj)) hpath
        (Nat.le_of_succ_le_succ hn)
      unfold State.items
      rw [next_mk hi, ok_bind, hrest]
      rfl

theorem Denotes.items_eq (hd : Denotes s a) (ha : a.lists h = some l) {n : ℕ} (hn : l.length ≤ n) :
    s.items h n (s.links.next (.head h)) = .ok (some l) :=
  items_of_isChain (hd.head_mem ha) (fun i hi => (hd.items i).2 (hd.members h l ha i hi))
    (hd.ring h l ha).path hn

/-! ### The calls -/

theorem Denotes.pushBack (hd : Denotes s a) (ha : a.lists h = some l) (hi : i ∈ a.items) :
    ∃ t, s.pushBack h i = .ok t ∧ t.live = s.live ∧ Denotes t ((a.remove i).append h i) := by
  obtain ⟨L₁, h₁, hd₁⟩ := hd.unlink hi
  have ha₁ : (a.remove i).lists h = some (l.erase i) := by rw [remove_lists, ha, Option.map_some]
  obtain ⟨L₂, h₂, hd₂⟩ := hd₁.linkBack ha₁ hi fun _ _ ha' => hd.notMem_remove ha'
  refine ⟨⟨s.live, L₂⟩, ?_, rfl, hd₂⟩
  unfold State.pushBack
  rw [h₁, ok_bind, h₂]

/-- The first item of a list is in no other list. -/
theorem Denotes.remove_first (hd : Denotes s a) (ha : a.lists h = some (i :: l)) :
    a.remove i = a.put h (some l) := by
  have hl : (a.remove i).lists = (a.put h (some l)).lists := by
    funext h'
    rw [remove_lists]
    show _ = Function.update a.lists h (some l) h'
    by_cases hh : h' = h
    · subst hh
      rw [Function.update_self, ha, Option.map_some, List.erase_cons_head]
    · rw [Function.update_of_ne hh]
      cases ha' : a.lists h' with
      | none => rfl
      | some l' =>
        rw [Option.map_some, List.erase_of_not_mem]
        exact hd.apart h _ ha h' l' ha' (Ne.symm hh) i List.mem_cons_self
  show Lists.mk (a.remove i).lists a.items = _
  rw [hl]
  rfl

theorem Denotes.popFront (hd : Denotes s a) (ha : a.lists h = some (i :: l)) :
    ∃ t, s.popFront h = .ok t ∧ t.live = s.live ∧ Denotes t (a.put h (some l)) := by
  obtain ⟨L₁, h₁, hd₁⟩ := hd.unlink (hd.members h _ ha i List.mem_cons_self)
  rw [hd.remove_first ha] at hd₁
  refine ⟨⟨s.live, L₁⟩, ?_, rfl, hd₁⟩
  unfold State.popFront
  rw [next_mk (hd.head_mem ha), ok_bind]
  simp only [hd.first ha]
  exact h₁

omit [DecidableEq I] in
theorem put_eq_self (ha : a.lists h = some l) : a.put h (some l) = a := by
  show Lists.mk (Function.update a.lists h (some l)) a.items = a
  rw [← ha, Function.update_eq_self]

omit [DecidableEq I] in
theorem put_put (a : Lists H I) (h : H) (l l' : Option (List I)) :
    (a.put h l).put h l' = a.put h l' := by
  show Lists.mk (Function.update (Function.update a.lists h l) h l') a.items = _
  rw [Function.update_idem]
  rfl

omit [DecidableEq I] in
@[simp] theorem lists_put_self (a : Lists H I) (h : H) (l : Option (List I)) :
    (a.put h l).lists h = l :=
  Function.update_self _ _ _

omit [DecidableEq I] in
theorem lists_put_of_ne {l : Option (List I)} (hne : h' ≠ h) : (a.put h l).lists h' = a.lists h' :=
  Function.update_of_ne hne _ _

theorem clearLoop_of_empty (he : s.empty h = .ok true) (n : ℕ) : s.clearLoop h n = .ok s := by
  unfold State.clearLoop
  rw [he]
  rfl

/-- An iteration of `clear()`. -/
theorem clearLoop_succ {x : Node H I} (he : s.empty h = .ok false)
    (hn : s.next (some (.head h)) = .ok (some x)) (n : ℕ) :
    s.clearLoop h (n + 1) = (s.unlink x).bind (State.clearLoop h n) := by
  conv_lhs => unfold State.clearLoop
  rw [he]
  show (s.next (some (.head h))).bind _ = _
  rw [hn]
  rfl

/-- The loop of `clear()` ends when it has unlinked the items of the list. -/
theorem Denotes.clearLoop (hd : Denotes s a) (ha : a.lists h = some l) {n : ℕ} (hn : l.length ≤ n) :
    ∃ t, s.clearLoop h n = .ok t ∧ t.live = s.live ∧ Denotes t (a.put h (some [])) := by
  have he := hd.empty ha
  induction l generalizing s a n with
  | nil => exact ⟨s, clearLoop_of_empty he n, rfl, by rwa [put_eq_self ha]⟩
  | cons i l ih =>
    obtain ⟨L₁, h₁, hd₁⟩ := hd.unlink (hd.members h _ ha i List.mem_cons_self)
    rw [hd.remove_first ha] at hd₁
    have ha₁ := lists_put_self a h (some l)
    cases n with
    | zero => simp at hn
    | succ n =>
      obtain ⟨t, ht, hlive, hdt⟩ := ih hd₁ ha₁ (Nat.le_of_succ_le_succ hn) (hd₁.empty ha₁)
      rw [put_put] at hdt
      refine ⟨t, ?_, hlive, hdt⟩
      rw [clearLoop_succ he ((next_mk (hd.head_mem ha)).trans (by rw [hd.first ha])), h₁, ok_bind]
      exact ht

theorem Denotes.clear (hd : Denotes s a) (ha : a.lists h = some l) :
    ∃ t, s.clear h = .ok t ∧ t.live = s.live ∧ Denotes t (a.put h (some [])) :=
  hd.clearLoop ha (hd.length_le ha)

/-! ### Construction and destruction -/

theorem Denotes.newItem (hd : Denotes s a) (hi : i ∉ a.items) :
    Denotes (s.create (.item i) none) { a with items := insert i a.items } := by
  have hno : ∀ h l, a.lists h = some l → i ∉ l := fun h l ha hm => hi (hd.members h l ha i hm)
  refine ⟨fun h => ?_, fun j => ?_, fun h l ha => ?_, fun h l ha j hj => ?_, hd.apart, fun j hj hn => ?_⟩
  · show .head h ∈ insert _ s.live ↔ _
    rw [Finset.mem_insert, ← hd.heads h]
    simp
  · show .item j ∈ insert _ s.live ↔ j ∈ insert i a.items
    rw [Finset.mem_insert, Finset.mem_insert, hd.items j, Node.item.injEq]
  · have hmem : ∀ y ∈ (.head h :: nodes l : List (Node H I)), y ≠ .item i := by
      rintro y hy rfl
      exact hno h l ha (by simpa using hy)
    refine (hd.ring h l ha).frame (fun y hy => ?_) fun y hy => ?_
    · exact next_setNext_of_ne _ _ _ (hmem y hy)
    · exact prev_setPrev_of_ne _ _ _ (hmem y hy)
  · exact Finset.mem_insert_of_mem (hd.members h l ha j hj)
  · by_cases hji : j = i
    · subst hji
      exact ⟨next_setNext_self _ _ _, prev_setPrev_self _ _ _⟩
    · obtain ⟨h₁, h₂⟩ := hd.unlinked j ((Finset.mem_insert.1 hj).resolve_left hji) hn
      have hne : (.item j : Node H I) ≠ .item i := by simpa using hji
      exact ⟨(next_setNext_of_ne _ _ _ hne).trans h₁, (prev_setPrev_of_ne _ _ _ hne).trans h₂⟩

/-- A list is created that takes the place of another one, or is empty. -/
theorem Denotes.newRing {L' : Links (Node H I)} (hd : Denotes ⟨live, L⟩ a) (hh : a.lists h = none)
    (hring : Ring L' (.head h) (nodes l)) (hrings : ∀ h' l', h' ≠ h → a'.lists h' = some l' →
      Ring L' (.head h') (nodes l'))
    (hlists : ∀ h', h' ≠ h → (a'.lists h').isSome = (a.lists h').isSome) (ha' : a'.lists h = some l)
    (hitems : a'.items = a.items) (hmem : ∀ h' l', a'.lists h' = some l' → ∀ i ∈ l', i ∈ a.items)
    (hapart : ∀ h₁ l₁, a'.lists h₁ = some l₁ → ∀ h₂ l₂, a'.lists h₂ = some l₂ → h₁ ≠ h₂ →
      ∀ i ∈ l₁, i ∉ l₂)
    (hun : ∀ i ∈ a.items, (∀ h l, a'.lists h = some l → i ∉ l) →
      L'.next (.item i) = none ∧ L'.prev (.item i) = none) :
    Denotes ⟨insert (.head h) live, L'⟩ a' := by
  refine ⟨fun h₁ => ?_, fun j => ?_, fun h₁ l₁ h₁l => ?_, ?_, hapart, ?_⟩
  · show .head h₁ ∈ insert _ live ↔ _
    rw [Finset.mem_insert]
    by_cases hh₁ : h₁ = h
    · subst hh₁
      simp [ha']
    · rw [hlists h₁ hh₁, ← hd.heads h₁]
      simp [hh₁]
  · show .item j ∈ insert _ live ↔ _
    rw [Finset.mem_insert, hitems, ← hd.items j]
    simp
  · by_cases hh₁ : h₁ = h
    · subst hh₁
      rw [ha'] at h₁l
      cases h₁l
      exact hring
    · exact hrings h₁ l₁ hh₁ h₁l
  · rw [hitems]
    exact hmem
  · rw [hitems]
    exact hun

theorem Denotes.newList (hd : Denotes ⟨live, L⟩ a) (hh : a.lists h = none) :
    Denotes (State.create ⟨live, L⟩ (.head h) (some (.head h))) (a.put h (some [])) := by
  have hold : ∀ h' l', h' ≠ h → (a.put h (some [])).lists h' = some l' → a.lists h' = some l' :=
    fun h' l' hne ha' => by rwa [lists_put_of_ne hne] at ha'
  have hcase : ∀ h' l', (a.put h (some [])).lists h' = some l' → l' = [] ∨ a.lists h' = some l' := by
    intro h' l' ha'
    by_cases hne : h' = h
    · subst hne
      rw [lists_put_self] at ha'
      exact .inl (Option.some.inj ha').symm
    · exact .inr (hold h' l' hne ha')
  refine hd.newRing hh (l := []) (ring_singleton (next_setNext_self _ _ _) (prev_setPrev_self _ _ _))
    (fun h' l' hne ha' => ?_) (fun h' hne => by rw [lists_put_of_ne hne]) (lists_put_self _ _ _) rfl
    (fun h' l' ha' i hi => ?_) (fun h₁ l₁ h₁l h₂ l₂ h₂l hne i hi hi' => ?_) fun i hi hno => ?_
  · refine (hd.ring h' l' (hold h' l' hne ha')).frame (fun y hy => ?_) fun y hy => ?_
    · refine next_setNext_of_ne _ _ _ ?_
      rintro rfl
      simp [hne.symm] at hy
    · refine prev_setPrev_of_ne _ _ _ ?_
      rintro rfl
      simp [hne.symm] at hy
  · rcases hcase h' l' ha' with rfl | ha'
    · cases hi
    · exact hd.members h' l' ha' i hi
  · rcases hcase h₁ l₁ h₁l with rfl | h₁l
    · cases hi
    · rcases hcase h₂ l₂ h₂l with rfl | h₂l
      · cases hi'
      · exact hd.apart h₁ l₁ h₁l h₂ l₂ h₂l hne i hi hi'
  · refine hd.unlinked i hi fun h' l' ha' => ?_
    by_cases hne : h' = h
    · subst hne
      rw [hh] at ha'
      cases ha'
    · exact hno h' l' (by rwa [lists_put_of_ne hne])

/-- A list without items: the new one is linked with itself. -/
theorem Denotes.moveConstruct_nil (hd : Denotes ⟨live, L⟩ a) (hh : a.lists h = none)
    (ha : a.lists rhs = some []) : ∃ t, State.moveConstruct ⟨live, L⟩ h rhs = .ok t ∧
      Denotes t ((a.put rhs (some [])).put h (some [])) := by
  have hne : (.head rhs : Node H I) ≠ .head h := by
    intro heq
    cases heq
    rw [hh] at ha
    cases ha
  have hk : (.head h : Node H I) ∈ insert (.head h) live := Finset.mem_insert_self _ _
  have hempty : (State.create ⟨live, L⟩ (.head h) none).empty rhs = .ok true := by
    unfold State.empty State.create
    rw [next_mk (Finset.mem_insert_of_mem (hd.head_mem ha)), next_setPrev,
      next_setNext_of_ne _ _ _ hne]
    show Except.ok (decide (L.next (.head rhs) = some (.head rhs))) = _
    rw [decide_eq_true ((hd.ring rhs _ ha).next_eq_some_self_iff.2 rfl)]
  rw [put_eq_self ha]
  refine ⟨_, ?_, hd.newList hh⟩
  unfold State.moveConstruct
  simp only
  rw [hempty, ok_bind, if_pos rfl]
  unfold State.create
  rw [setPrev_mk hk, ok_bind, setNext_mk hk]
  simp only [Links.setNext, Links.setPrev, Function.update_idem]

/-- What it assigns otherwise: `k` takes the place of `r` between `p` and `n`, and `r` is linked with
itself. -/
def takeLinks (L : Links (Node H I)) (k r n p : Node H I) : Links (Node H I) :=
  (((((((L.setNext k none).setPrev k none).setNext r (some r)).setNext k (some n)).setPrev r
    (some r)).setPrev k (some p)).setNext p (some k)).setPrev n (some k)

section TakeLinks

variable {k r n p y : Node H I}

theorem next_takeLinks (hk : y ≠ k) (hr : y ≠ r) (hp : y ≠ p) :
    (takeLinks L k r n p).next y = L.next y := by
  simp [takeLinks, Links.setNext, Links.setPrev, hk, hr, hp]

theorem prev_takeLinks (hk : y ≠ k) (hr : y ≠ r) (hn : y ≠ n) :
    (takeLinks L k r n p).prev y = L.prev y := by
  simp [takeLinks, Links.setNext, Links.setPrev, hk, hr, hn]

theorem linked_takeLinks_next (hp : p ≠ k) : (takeLinks L k r n p).Linked k n := by
  refine ⟨?_, ?_⟩
  · simp [takeLinks, Links.setNext, Links.setPrev, hp.symm]
  · simp [takeLinks, Links.setNext, Links.setPrev]

theorem linked_takeLinks_prev (hn : n ≠ k) : (takeLinks L k r n p).Linked p k := by
  refine ⟨?_, ?_⟩
  · simp [takeLinks, Links.setNext, Links.setPrev]
  · simp [takeLinks, Links.setNext, Links.setPrev, hn.symm]

theorem ring_takeLinks (hk : r ≠ k) (hn : n ≠ r) (hp : p ≠ r) : Ring (takeLinks L k r n p) r [] := by
  refine ring_singleton ?_ ?_
  · simp [takeLinks, Links.setNext, Links.setPrev, hp.symm, hk]
  · simp [takeLinks, Links.setNext, Links.setPrev, hn.symm, hk]

/-- The constructor, when the other list has items. -/
theorem moveConstruct_of_links (hrh : rhs ≠ h) (hr : .head rhs ∈ live) (hnl : n ∈ live) (hpl : p ∈ live)
    (hn : L.next (.head rhs) = some n) (hp : L.prev (.head rhs) = some p) (hnr : n ≠ .head rhs)
    (hpk : p ≠ .head h) : State.moveConstruct ⟨live, L⟩ h rhs =
      .ok ⟨insert (.head h) live, takeLinks L (.head h) (.head rhs) n p⟩ := by
  have hk : (.head h : Node H I) ∈ insert (.head h) live := Finset.mem_insert_self _ _
  have hr' : (.head rhs : Node H I) ∈ insert (.head h) live := Finset.mem_insert_of_mem hr
  have hrk : (.head rhs : Node H I) ≠ .head h := by simpa using hrh
  have hempty : (State.create ⟨live, L⟩ (.head h) none).empty rhs = .ok false := by
    unfold State.empty State.create
    rw [next_mk hr', next_setPrev, next_setNext_of_ne _ _ _ hrk, hn]
    show Except.ok (decide (some n = some (.head rhs))) = _
    rw [decide_eq_false fun heq => hnr (Option.some.inj heq)]
  unfold State.moveConstruct
  simp only
  rw [hempty, ok_bind, if_neg Bool.false_ne_true]
  unfold State.create
  rw [next_mk hr', ok_bind, next_setPrev, next_setNext_of_ne _ _ _ hrk, hn, setNext_mk hr', ok_bind,
    setNext_mk hk, ok_bind, prev_mk hr', ok_bind, prev_setNext, prev_setNext,
    prev_setPrev_of_ne _ _ _ hrk, prev_setNext, hp, setPrev_mk hr', ok_bind, setPrev_mk hk, ok_bind,
    prev_mk hk, ok_bind, prev_setPrev_self, setNext_mk (Finset.mem_insert_of_mem hpl), ok_bind,
    next_mk hk, ok_bind, next_setNext_of_ne _ _ _ hpk.symm, next_setPrev, next_setPrev,
    next_setNext_self, setPrev_mk (Finset.mem_insert_of_mem hnl)]
  rfl

end TakeLinks

omit [DecidableEq I] in
/-- A list is empty afterwards, or it has been there before. -/
theorem lists_taken_cases (hrh : rhs ≠ h) (ha : a.lists rhs = some l)
    (ha' : ((a.put rhs (some [])).put h (some l)).lists h' = some l') :
    l' = [] ∨ ∃ h₀, a.lists h₀ = some l' ∧ (h' = h ∧ h₀ = rhs ∨ h' ≠ h ∧ h' ≠ rhs ∧ h₀ = h') := by
  by_cases h₁ : h' = h
  · subst h₁
    rw [lists_put_self] at ha'
    cases ha'
    exact .inr ⟨rhs, ha, .inl ⟨rfl, rfl⟩⟩
  · rw [lists_put_of_ne h₁] at ha'
    by_cases h₂ : h' = rhs
    · subst h₂
      rw [lists_put_self] at ha'
      exact .inl (Option.some.inj ha').symm
    · rw [lists_put_of_ne h₂] at ha'
      exact .inr ⟨h', ha', .inr ⟨h₁, h₂, rfl⟩⟩

/-- Otherwise it takes the place of the other one, which is linked with itself. -/
theorem Denotes.moveConstruct_cons (hd : Denotes ⟨live, L⟩ a) (hh : a.lists h = none)
    (ha : a.lists rhs = some l) (hl : l ≠ []) : ∃ t, State.moveConstruct ⟨live, L⟩ h rhs = .ok t ∧
      Denotes t ((a.put rhs (some [])).put h (some l)) := by
  have hrh : rhs ≠ h := by
    rintro rfl
    rw [hh] at ha
    cases ha
  have hring := hd.ring rhs l ha
  have hnodes : (nodes l : List (Node H I)) ≠ [] := by simpa using hl
  obtain ⟨⟨n, hnm, hn⟩, p, hpm, hp⟩ := hring.ends_mem hnodes
  have hlive : ∀ y ∈ (nodes l : List (Node H I)), y ∈ live := fun y hy =>
    hd.live ha (List.mem_cons_of_mem _ hy)
  have hitem : ∀ y ∈ (nodes l : List (Node H I)), ∀ h₁ : H, y ≠ .head h₁ := by
    intro y hy h₁
    obtain ⟨i, -, rfl⟩ := List.mem_map.1 hy
    nofun
  have hrk : (.head rhs : Node H I) ≠ .head h := by simpa using hrh
  have hrun := moveConstruct_of_links hrh (hd.head_mem ha) (hlive n hnm) (hlive p hpm) hn hp
    (hitem n hnm rhs) (hitem p hpm h)
  have hlists : ∀ h', h' ≠ h → h' ≠ rhs →
      ((a.put rhs (some [])).put h (some l)).lists h' = a.lists h' := by
    intro h' h₁ h₂
    rw [lists_put_of_ne h₁, lists_put_of_ne h₂]
  have hrhs : ((a.put rhs (some [])).put h (some l)).lists rhs = some [] := by
    rw [lists_put_of_ne hrh, lists_put_self]
  refine ⟨_, hrun, hd.newRing hh (l := l) ?_ (fun h' l' hne ha' => ?_) (fun h' hne => ?_)
    (lists_put_self _ _ _) rfl (fun h' l' ha' i hi => ?_)
    (fun h₁ l₁ h₁l h₂ l₂ h₂l hne i hi hi' => ?_) fun i hi hno => ?_⟩
  · refine hring.take hnodes (fun hm => hitem _ hm h rfl) hn hp (linked_takeLinks_next (hitem p hpm h))
      (linked_takeLinks_prev (hitem n hnm h)) (fun y hy hyp => ?_) fun y hy hyn => ?_
    · exact next_takeLinks (hitem y hy h) (hitem y hy rhs) hyp
    · exact prev_takeLinks (hitem y hy h) (hitem y hy rhs) hyn
  · by_cases h₂ : h' = rhs
    · subst h₂
      rw [hrhs] at ha'
      cases ha'
      exact ring_takeLinks hrk (hitem n hnm h') (hitem p hpm h')
    · rw [hlists h' hne h₂] at ha'
      have hout : ∀ y ∈ (.head h' :: nodes l' : List (Node H I)),
          y ≠ .head h ∧ y ≠ .head rhs ∧ y ∉ (nodes l : List (Node H I)) := by
        intro y hy
        refine ⟨?_, ?_, fun hm => hd.disjoint ha' ha h₂ hy (List.mem_cons_of_mem _ hm)⟩
        · rintro rfl
          simp [Ne.symm hne] at hy
        · rintro rfl
          simp [Ne.symm h₂] at hy
      refine (hd.ring h' l' ha').frame (fun y hy => ?_) fun y hy => ?_
      · obtain ⟨h₁, h₂, h₃⟩ := hout y hy
        exact next_takeLinks h₁ h₂ fun heq => h₃ (heq ▸ hpm)
      · obtain ⟨h₁, h₂, h₃⟩ := hout y hy
        exact prev_takeLinks h₁ h₂ fun heq => h₃ (heq ▸ hnm)
  · by_cases h₂ : h' = rhs
    · subst h₂
      rw [hrhs, ha]
      rfl
    · rw [hlists h' hne h₂]
  · rcases lists_taken_cases hrh ha ha' with rfl | ⟨h₀, ha₀, -⟩
    · cases hi
    · exact hd.members h₀ l' ha₀ i hi
  · rcases lists_taken_cases hrh ha h₁l with rfl | ⟨k₁, hk₁, hc₁⟩
    · cases hi
    · rcases lists_taken_cases hrh ha h₂l with rfl | ⟨k₂, hk₂, hc₂⟩
      · cases hi'
      · refine hd.apart k₁ l₁ hk₁ k₂ l₂ hk₂ ?_ i hi hi'
        rcases hc₁ with ⟨rfl, rfl⟩ | ⟨-, h₁r, rfl⟩
        · rcases hc₂ with ⟨rfl, rfl⟩ | ⟨-, h₂r, rfl⟩
          · exact absurd rfl hne
          · exact h₂r.symm
        · rcases hc₂ with ⟨rfl, rfl⟩ | ⟨-, -, rfl⟩
          · exact h₁r
          · exact hne
  · have hil : i ∉ l := hno h l (lists_put_self _ _ _)
    obtain ⟨h₁, h₂⟩ := hd.unlinked i hi fun h' l' ha' => by
      by_cases h₂ : h' = rhs
      · subst h₂
        rw [ha] at ha'
        cases ha'
        exact hil
      · refine hno h' l' ?_
        rw [hlists h' ?_ h₂, ha']
        rintro rfl
        rw [hh] at ha'
        cases ha'
    have hmem : ∀ y ∈ (nodes l : List (Node H I)), (.item i : Node H I) ≠ y := by
      rintro y hy rfl
      exact hil (mem_nodes.1 hy)
    refine ⟨?_, ?_⟩
    · refine (next_takeLinks ?_ ?_ (hmem p hpm)).trans h₁ <;> nofun
    · refine (prev_takeLinks ?_ ?_ (hmem n hnm)).trans h₂ <;> nofun

theorem Denotes.moveConstruct (hd : Denotes ⟨live, L⟩ a) (hh : a.lists h = none)
    (ha : a.lists rhs = some l) : ∃ t, State.moveConstruct ⟨live, L⟩ h rhs = .ok t ∧
      Denotes t ((a.put rhs (some [])).put h (some l)) := by
  by_cases hl : l = []
  · subst hl
    exact hd.moveConstruct_nil hh ha
  · exact hd.moveConstruct_cons hh ha hl

/-- An item that is in no list is destroyed. -/
theorem Denotes.deleteItem (hd : Denotes s a) (hno : ∀ h l, a.lists h = some l → i ∉ l) :
    Denotes (s.delete (.item i)) { a with items := a.items.erase i } := by
  refine ⟨fun h => ?_, fun j => ?_, hd.ring, fun h l ha j hj => ?_, hd.apart, fun j hj hn => ?_⟩
  · show .head h ∈ s.live.erase _ ↔ _
    rw [Finset.mem_erase, ← hd.heads h]
    simp
  · show .item j ∈ s.live.erase _ ↔ j ∈ a.items.erase i
    rw [Finset.mem_erase, Finset.mem_erase, hd.items j, ne_eq, Node.item.injEq]
  · refine Finset.mem_erase.2 ⟨?_, hd.members h l ha j hj⟩
    rintro rfl
    exact hno h l ha hj
  · exact hd.unlinked j (Finset.mem_of_mem_erase hj) hn

/-- A list without items is destroyed: the destructor of its base class unlinks it. -/
theorem Denotes.deleteList (hd : Denotes ⟨live, L⟩ a) (ha : a.lists h = some []) :
    ∃ L', State.unlink ⟨live, L⟩ (.head h) = .ok ⟨live, L'⟩ ∧
      Denotes (State.delete ⟨live, L'⟩ (.head h)) (a.put h none) := by
  have hk := hd.head_mem ha
  obtain ⟨hn, hp⟩ : L.Linked (.head h) (.head h) :=
    (List.isChain_cons_cons.1 (hd.ring h _ ha).path).1
  refine ⟨_, unlink_of_self hk hn hp, ?_⟩
  have hold : ∀ h' l', (a.put h none).lists h' = some l' → h' ≠ h ∧ a.lists h' = some l' := by
    intro h' l' ha'
    by_cases hne : h' = h
    · subst hne
      rw [lists_put_self] at ha'
      cases ha'
    · exact ⟨hne, by rwa [lists_put_of_ne hne] at ha'⟩
  have hout : ∀ y : Node H I, y ≠ .head h →
      ((((L.setPrev (.head h) (some (.head h))).setNext (.head h) (some (.head h))).setPrev (.head h)
        none).setNext (.head h) none).next y = L.next y ∧
      ((((L.setPrev (.head h) (some (.head h))).setNext (.head h) (some (.head h))).setPrev (.head h)
        none).setNext (.head h) none).prev y = L.prev y := by
    intro y hy
    simp [Links.setNext, Links.setPrev, hy]
  refine ⟨fun h' => ?_, fun j => ?_, fun h' l' ha' => ?_, fun h' l' ha' => ?_,
    fun h₁ l₁ h₁l h₂ l₂ h₂l => ?_, fun j hj hno => ?_⟩
  · show .head h' ∈ live.erase _ ↔ _
    rw [Finset.mem_erase]
    by_cases hne : h' = h
    · subst hne
      simp [lists_put_self]
    · rw [lists_put_of_ne hne, ← hd.heads h']
      simp [hne]
  · show .item j ∈ live.erase _ ↔ _
    rw [Finset.mem_erase]
    exact (and_iff_right nofun).trans (hd.items j)
  · obtain ⟨hne, ha'⟩ := hold h' l' ha'
    have hmem : ∀ y ∈ (.head h' :: nodes l' : List (Node H I)), y ≠ .head h := by
      rintro y hy rfl
      simp [Ne.symm hne] at hy
    exact (hd.ring h' l' ha').frame (fun y hy => (hout y (hmem y hy)).1) fun y hy =>
      (hout y (hmem y hy)).2
  · exact hd.members h' l' (hold h' l' ha').2
  · exact hd.apart h₁ l₁ (hold h₁ l₁ h₁l).2 h₂ l₂ (hold h₂ l₂ h₂l).2
  · obtain ⟨h₁, h₂⟩ := hout (.item j) nofun
    have hno' : ∀ h' l', a.lists h' = some l' → j ∉ l' := by
      intro h' l' ha'
      by_cases hne : h' = h
      · subst hne
        rw [ha] at ha'
        cases ha'
        exact List.not_mem_nil
      · exact hno h' l' (by rwa [lists_put_of_ne hne])
    obtain ⟨h₃, h₄⟩ := hd.unlinked j hj hno'
    exact ⟨h₁.trans h₃, h₂.trans h₄⟩

/-! ### Runs -/

/-- The step lemma. -/
theorem step_matches (hd : Denotes s a) (act : Action H I) (hok : PopsItems s act) :
    Matches Denotes .lifetime (step s act) (a.step act) := by
  have hlist : ∀ h, .head h ∈ s.live ↔ (a.lists h).isSome = true := hd.heads
  have hlive : ∀ i, .item i ∈ s.live ↔ i ∈ a.items := hd.items
  cases act with
  | newList h =>
    simp only [step, Lists.step, hlist]
    split_ifs with hh
    · exact .error
    · exact .ok (hd.newList (by simpa using hh))
  | newItem i =>
    simp only [step, Lists.step, hlive]
    split_ifs with hi
    · exact .error
    · exact .ok (hd.newItem hi)
  | pushBack h i =>
    simp only [step, Lists.step, hlist, hlive]
    split_ifs with hin
    · obtain ⟨l, ha⟩ := Option.isSome_iff_exists.1 hin.1
      obtain ⟨t, ht, -, hdt⟩ := hd.pushBack ha hin.2
      rw [ht]
      exact .ok hdt
    · exact .error
  | unlink i =>
    simp only [step, Lists.step, hlive]
    split_ifs with hi
    · obtain ⟨L', hL', hd'⟩ := hd.unlink hi
      rw [show s.unlink (.item i) = _ from hL']
      exact .ok hd'
    · exact .error
  | erase h i =>
    simp only [step, Lists.step, hlist, hlive]
    split_ifs with hin
    · obtain ⟨L', hL', hd'⟩ := hd.unlink hin.2
      rw [show s.unlink (.item i) = _ from hL']
      exact .ok hd'
    · exact .error
  | popFront h =>
    simp only [step, Lists.step, hlist]
    cases ha : a.lists h with
    | none => exact .error
    | some l =>
      have hne : s.empty h = .ok false := hok
      cases l with
      | nil =>
        rw [hd.empty ha] at hne
        cases hne
      | cons i l =>
        obtain ⟨t, ht, -, hdt⟩ := hd.popFront ha
        rw [if_pos Option.isSome_some, ht]
        exact .ok hdt
  | moveConstruct h rhs =>
    simp only [step, Lists.step, hlist]
    cases hh : a.lists h with
    | some l =>
      rw [if_neg (by simp)]
      exact .error
    | none =>
      cases ha : a.lists rhs with
      | none =>
        rw [if_neg (by simp)]
        exact .error
      | some l =>
        obtain ⟨t, ht, hdt⟩ := hd.moveConstruct hh ha
        rw [if_pos (by simp), show s.moveConstruct h rhs = _ from ht]
        exact .ok hdt
  | clear h =>
    simp only [step, Lists.step, hlist]
    split_ifs with hh
    · obtain ⟨l, ha⟩ := Option.isSome_iff_exists.1 hh
      obtain ⟨t, ht, -, hdt⟩ := hd.clear ha
      rw [ht]
      exact .ok hdt
    · exact .error
  | destroyList h =>
    simp only [step, Lists.step, hlist]
    split_ifs with hh
    · obtain ⟨l, ha⟩ := Option.isSome_iff_exists.1 hh
      obtain ⟨t, ht, -, hdt⟩ := hd.clear ha
      obtain ⟨L', hL', hd'⟩ := hdt.deleteList (lists_put_self a h (some []))
      rw [put_put] at hd'
      rw [ht, ok_bind, show t.unlink (.head h) = _ from hL']
      exact .ok hd'
    · exact .error
  | destroyItem i =>
    simp only [step, Lists.step, hlive]
    split_ifs with hi
    · obtain ⟨L', hL', hd'⟩ := hd.unlink hi
      rw [show s.unlink (.item i) = _ from hL']
      exact .ok (hd'.deleteItem fun h l ha => hd.notMem_remove ha)
    · exact .error

instance (s : State H I) (act : Action H I) : Decidable (PopsItems s act) := by
  unfold PopsItems
  cases act <;> infer_instance

/-- In every run in which `pop_front()` is called on lists with items, the calls do to the links what
they are meant to do to the lists, and they fail only if a list or an item is used that does not exist,
or created that does; the lists are rings; the observers tell what is in them; and `clear()` ends, with
the links of the former items removed. -/
theorem intrusive_lists (acts : List (Action H I)) (hm : Meets step PopsItems .init acts) :
    Matches Denotes .lifetime (exec step .init acts) (exec Lists.step .init acts) ∧
      ∀ s a, exec step .init acts = .ok s → exec Lists.step .init acts = .ok a →
        ∀ h l, a.lists h = some l →
          (∀ l', Ring s.links (.head h) (nodes l') ↔ l' = l) ∧
          s.empty h = .ok (decide (l = [])) ∧ s.containsOneItem h = .ok (decide (l.length = 1)) ∧
          (∀ n, l.length ≤ n → s.items h n (s.links.next (.head h)) = .ok (some l)) ∧
          ∃ t, s.clear h = .ok t ∧ Denotes t (a.put h (some [])) ∧
            ∀ i ∈ l, t.links.next (.item i) = none ∧ t.links.prev (.item i) = none := by
  have hmatch := exec_matches (fun _ _ act hd hok => step_matches hd act hok)
    (denotes_init (H := H) (I := I)) hm
  refine ⟨hmatch, fun s a hs ha h l hl => ?_⟩
  rw [hs, ha] at hmatch
  cases hmatch with
  | ok hd =>
    obtain ⟨t, ht, -, hdt⟩ := hd.clear hl
    refine ⟨fun l' => ⟨fun hr => ?_, ?_⟩, hd.empty hl, hd.containsOneItem hl,
      fun n hn => hd.items_eq hl hn, t, ht, hdt, fun i hi => ?_⟩
    · exact List.map_injective_iff.2 (fun i j hij => Node.item.inj hij) (hr.unique (hd.ring h l hl))
    · rintro rfl
      exact hd.ring h l' hl
    · refine hdt.unlinked i (hd.members h l hl i hi) fun h' l' ha' hi' => ?_
      by_cases hne : h' = h
      · subst hne
        rw [lists_put_self] at ha'
        cases ha'
        cases hi'
      · rw [lists_put_of_ne hne] at ha'
        exact hd.apart h l hl h' l' ha' (Ne.symm hne) i hi hi'

/-- An item changes lists, a list is moved, an item is destroyed that is in a list. -/
def handedOver : List (Action ℕ ℕ) :=
  [.newList 0, .newList 1, .newItem 0, .newItem 1, .newItem 2, .pushBack 0 0, .pushBack 0 1,
    .pushBack 1 2, .pushBack 1 0, .moveConstruct 2 1, .pushBack 2 1, .popFront 2, .erase 0 2,
    .destroyItem 0, .destroyList 0]

theorem intrusive_lists_handedOver :
    Matches Denotes .lifetime (exec step .init handedOver) (exec Lists.step .init handedOver) ∧
      (exec Lists.step .init handedOver).map (fun a => (a.lists 0, a.lists 1, a.lists 2)) =
        .ok (none, some [], some [1]) :=
  ⟨(intrusive_lists handedOver (by decide +kernel)).1, by decide +kernel⟩

end Corral.IntrusiveList
