import Corral.Detail.ValueOrPromiseContents

/-!
# `detail::ValueOrPromise`: runs

* `Denotes`: the words stand for the contents, and every value on the heap belongs to one object;
* `Denotes.update`: what has to be shown when one object and the heap change;
* `Denotes.release`, `Denotes.takeValue`, `Denotes.moveAssign` and others: what the calls do to the words;
* `step_matches`: the step lemma;
* `value_or_promise`: every run does to the words what it does to the contents, and the observers tell
  what the contents are.
-/

namespace Corral.ValueOrPromise

open TaggedWord ActionMachine

variable {n : ℕ} {V : Type*} {O : Type*} {ty : ValueType n V} {s : State O n V} {t : Contents O n V}
  {a b old : Word n} {c c' : Content n V} {v : V} {o rhs : O}

/-- The object has a pointer to the value at `a`. -/
def State.Owner (s : State O n V) (o : O) (a : Word n) : Prop :=
  ∃ b, s.bits o = some b ∧ PointsTo b a

structure Denotes (ty : ValueType n V) (s : State O n V) (t : Contents O n V) : Prop where
  words : ∀ o, Option.Rel (Represents ty s.heap) (s.bits o) (t.content o)
  owned : ∀ a, (s.heap a).isSome → ∃ o, s.Owner o a
  unique : ∀ o o' a, s.Owner o a → s.Owner o' a → o = o'
  destroyed : s.destroyed = t.destroyed
  outputs : s.outputs = t.outputs

theorem denotes_init (ty : ValueType n V) : Denotes ty (State.init : State O n V) Contents.init where
  words _ := .none
  owned _ h := by cases h
  unique _ _ _ := by
    rintro ⟨b, hb, -⟩
    cases hb
  destroyed := rfl
  outputs := rfl

theorem Denotes.isSome_eq (hd : Denotes ty s t) (o : O) : (s.bits o).isSome = (t.content o).isSome := by
  have h := hd.words o
  cases hb : s.bits o <;> cases hc : t.content o <;> rw [hb, hc] at h <;> cases h <;> rfl

theorem Denotes.represents (hd : Denotes ty s t) (hb : s.bits o = some b) (hc : t.content o = some c) :
    Represents ty s.heap b c := by
  have h := hd.words o
  rw [hb, hc] at h
  cases h with
  | some h => exact h

theorem Denotes.content (hd : Denotes ty s t) (hb : s.bits o = some b) :
    ∃ c, t.content o = some c ∧ Represents ty s.heap b c := by
  have h := hd.isSome_eq o
  rw [hb, Option.isSome_some] at h
  obtain ⟨c, hc⟩ := Option.isSome_iff_exists.1 h.symm
  exact ⟨c, hc, hd.represents hb hc⟩

theorem Denotes.content_none (hd : Denotes ty s t) (hb : s.bits o = none) : t.content o = none := by
  have h := hd.isSome_eq o
  rw [hb] at h
  exact Option.isNone_iff_eq_none.1 (by simpa using h.symm)

variable [DecidableEq O]

/-- The state with a new word for an object and a new heap. -/
theorem Denotes.update {w : Option (Word n)} {c : Option (Content n V)} {heap : Word n → Option V}
    (hd : Denotes ty s t) (hw : Option.Rel (Represents ty heap) w c)
    (hframe : ∀ o' ≠ o, ∀ a, s.Owner o' a → heap a = s.heap a)
    (howned : ∀ a, (heap a).isSome → (∃ b, w = some b ∧ PointsTo b a) ∨ ∃ o' ≠ o, s.Owner o' a)
    (hunique : ∀ b a, w = some b → PointsTo b a → ∀ o' ≠ o, ¬ s.Owner o' a) :
    Denotes ty { s.setBits o w with heap := heap } (t.put o c) := by
  have hself : ({ s.setBits o w with heap := heap } : State O n V).bits o = w := Function.update_self ..
  have hother : ∀ o' ≠ o, ({ s.setBits o w with heap := heap } : State O n V).bits o' = s.bits o' :=
    fun o' hne => Function.update_of_ne hne _ _
  -- Another object owns what it did before.
  have howner : ∀ o' ≠ o, ∀ a,
      ({ s.setBits o w with heap := heap } : State O n V).Owner o' a ↔ s.Owner o' a := by
    intro o' hne a
    unfold State.Owner
    rw [hother o' hne]
  refine ⟨fun o' => ?_, fun a ha => ?_, fun o₁ o₂ a h₁ h₂ => ?_, hd.destroyed, hd.outputs⟩
  · by_cases hne : o' = o
    · subst hne
      rw [hself]
      show Option.Rel _ w (Function.update t.content o' c o')
      rw [Function.update_self]
      exact hw
    · rw [hother o' hne]
      show Option.Rel _ _ (Function.update t.content o c o')
      rw [Function.update_of_ne hne]
      have h := hd.words o'
      cases hb : s.bits o' with
      | none =>
        rw [hd.content_none hb]
        exact .none
      | some b =>
        obtain ⟨c', hc, hrep⟩ := hd.content hb
        rw [hc]
        exact .some (hrep.frame fun a hp => hframe o' hne a ⟨b, hb, hp⟩)
  · rcases howned a ha with ⟨b, hb, hp⟩ | ⟨o', hne, ho'⟩
    · exact ⟨o, b, hself.trans hb, hp⟩
    · exact ⟨o', (howner o' hne a).2 ho'⟩
  · by_cases hne₁ : o₁ = o
    · by_cases hne₂ : o₂ = o
      · rw [hne₁, hne₂]
      · subst hne₁
        obtain ⟨b, hb, hp⟩ := h₁
        exact absurd ((howner o₂ hne₂ a).1 h₂) (hunique b a (hself.symm.trans hb) hp o₂ hne₂)
    · by_cases hne₂ : o₂ = o
      · subst hne₂
        obtain ⟨b, hb, hp⟩ := h₂
        exact absurd ((howner o₁ hne₁ a).1 h₁) (hunique b a (hself.symm.trans hb) hp o₁ hne₁)
      · exact hd.unique o₁ o₂ a ((howner o₁ hne₁ a).1 h₁) ((howner o₂ hne₂ a).1 h₂)

/-- An object that owns no value gets a word that does not point to one. -/
theorem Denotes.put {w : Option (Word n)} {c : Option (Content n V)} (hd : Denotes ty s t)
    (hold : ∀ a, ¬ s.Owner o a) (hbare : ∀ b, w = some b → Bare b)
    (hw : Option.Rel (Represents ty s.heap) w c) : Denotes ty (s.setBits o w) (t.put o c) := by
  refine hd.update hw (fun _ _ _ _ => rfl) (fun a ha => .inr ?_) fun b a hb hp => absurd hp (hbare b hb a)
  obtain ⟨o', ho'⟩ := hd.owned a ha
  refine ⟨o', ?_, ho'⟩
  rintro rfl
  exact hold a ho'

/-- The value of an object is deleted, and the object gets a word that does not point to one. -/
theorem Denotes.delete {w : Option (Word n)} {c : Option (Content n V)} (hd : Denotes ty s t)
    (ha : s.Owner o a) (hbare : ∀ b, w = some b → Bare b)
    (hw : Option.Rel (Represents ty (Function.update s.heap a none)) w c) :
    Denotes ty { s.setBits o w with heap := Function.update s.heap a none } (t.put o c) := by
  refine hd.update hw (fun o' hne a' ha' => ?_) (fun a' ha' => .inr ?_)
    fun b a' hb hp => absurd hp (hbare b hb a')
  · refine Function.update_of_ne ?_ _ _
    rintro rfl
    exact hne (hd.unique o' o a' ha' ha)
  · by_cases hne : a' = a
    · rw [hne, Function.update_self] at ha'
      cases ha'
    · rw [Function.update_of_ne hne] at ha'
      obtain ⟨o', ho'⟩ := hd.owned a' ha'
      refine ⟨o', ?_, ho'⟩
      rintro rfl
      obtain ⟨b, hb, hp⟩ := ha
      obtain ⟨b', hb', hp'⟩ := ho'
      rw [hb] at hb'
      cases hb'
      exact hne (hp'.unique hp)

/-- A new object gets a value on the heap. -/
theorem Denotes.allocate (hd : Denotes ty s t) (hold : ∀ a, ¬ s.Owner o a) (ha : isPointer a)
    (hfree : s.heap a = none) (v : V) :
    Denotes ty { s.setBits o (some (a ||| isValuePtr)) with
      heap := Function.update s.heap a (some v) } (t.put o (some (.value v))) := by
  -- No object points to an address that is not in use.
  have hno : ∀ o', ¬ s.Owner o' a := by
    rintro o' ⟨b, hb, hp⟩
    obtain ⟨c, -, hrep⟩ := hd.content hb
    obtain ⟨v, -, hv⟩ := hrep.pointsTo hp
    rw [hfree] at hv
    cases hv
  refine hd.update (.some (.pointer ha (Function.update_self ..))) (fun o' _ a' ha' => ?_)
    (fun a' ha' => ?_) fun b a' hb hp o' _ ho' => ?_
  · refine Function.update_of_ne ?_ _ _
    rintro rfl
    exact hno o' ha'
  · by_cases hne : a' = a
    · subst hne
      exact .inl ⟨_, rfl, ha, rfl⟩
    · rw [Function.update_of_ne hne] at ha'
      obtain ⟨o', ho'⟩ := hd.owned a' ha'
      refine .inr ⟨o', ?_, ho'⟩
      rintro rfl
      exact hold a' ho'
  · cases hb
    obtain rfl := hp.unique ⟨ha, rfl⟩
    exact hno o' ho'

/-! ### The calls -/

omit [DecidableEq O] in
theorem release_or (hn : 0 < n) (ha : a &&& mask = 0) {k : ℕ} (hk : k < 4) :
    s.release (a ||| BitVec.ofNat (8 * n) k) =
      if a = 0 then .ok s
      else if k = 0 then .ok { s with destroyed := s.destroyed ++ [a] }
      else if k = 1 then
        if (s.heap a).isSome then .ok { s with heap := Function.update s.heap a none }
        else .error .dangling
      else .ok s := by
  unfold State.release
  rw [take_or ha hk]
  simp only [isPromise, isValuePtr, tag_inj hn hk (show 0 < 4 by decide),
    tag_inj hn hk (show 1 < 4 by decide)]

omit [DecidableEq O] in
/-- An object whose word is not a pointer owns nothing. -/
theorem not_owner (hb : s.bits o = some b) (hbare : Bare b) (a : Word n) : ¬ s.Owner o a := by
  rintro ⟨b', hb', hp⟩
  rw [hb] at hb'
  cases hb'
  exact hbare a hp

omit [DecidableEq O] in
theorem Denotes.destroy (hd : Denotes ty s t) (p : Word n) :
    Denotes ty { s with destroyed := s.destroyed ++ [p] } (t.release (.promise p)) :=
  ⟨hd.words, hd.owned, hd.unique, congrArg (· ++ [p]) hd.destroyed, hd.outputs⟩

omit [DecidableEq O] in
theorem Denotes.output (hd : Denotes ty s t) (x : Output n V) : Denotes ty (s.output x) (t.output x) :=
  ⟨hd.words, hd.owned, hd.unique, hd.destroyed, congrArg (· ++ [x]) hd.outputs⟩

/-- What an object held is released, once it has a new word. -/
theorem Denotes.release {w : Option (Word n)} {c' : Option (Content n V)} (hd : Denotes ty s t)
    (hb : s.bits o = some b) (hc : t.content o = some c) (hbare : ∀ b, w = some b → Bare b)
    (hw : ∀ heap, Option.Rel (Represents ty heap) w c') :
    ∃ s', (s.setBits o w).release b = .ok s' ∧ Denotes ty s' ((t.put o c').release c) := by
  have hput : Bare b → Denotes ty (s.setBits o w) (t.put o c') := fun hb' =>
    hd.put (not_owner hb hb') hbare (hw _)
  cases hd.represents hb hc with
  | empty =>
    refine ⟨_, ?_, hput (bare_of_tag ty.word zero_and_mask (by decide) (by decide))⟩
    rw [isPromise, release_or ty.word zero_and_mask (by decide), if_pos rfl]
  | consumed =>
    refine ⟨_, ?_, hput (bare_consumed ty.word)⟩
    rw [isValuePtr, release_or ty.word zero_and_mask (by decide), if_pos rfl]
  | @promise p hp =>
    obtain ⟨hne, hmask⟩ := isPointer_iff.1 hp
    refine ⟨_, ?_, (hput (bare_of_tag ty.word hmask (by decide) (by decide))).destroy p⟩
    rw [isPromise, release_or ty.word hmask (by decide), if_neg hne, if_pos rfl]
  | @inline i v hi h =>
    refine ⟨_, ?_, hput (bare_of_tag ty.word h (by decide) (by decide))⟩
    rw [isInlineValue, release_or ty.word h (by decide)]
    by_cases h₀ : i.store v = 0
    · rw [if_pos h₀]
    · rw [if_neg h₀, if_neg (by decide), if_neg (by decide)]
  | @shifted i v hi h =>
    have hmask := shiftLeft_and_mask (i.store v) typeBits
    refine ⟨_, ?_, hput (bare_of_tag ty.word hmask (by decide) (by decide))⟩
    rw [isShiftedInlineValue, release_or ty.word hmask (by decide)]
    by_cases h₀ : i.store v <<< typeBits = 0
    · rw [if_pos h₀]
    · rw [if_neg h₀, if_neg (by decide), if_neg (by decide)]
  | pointer ha h =>
    obtain ⟨hne, hmask⟩ := isPointer_iff.1 ha
    refine ⟨_, ?_, hd.delete ⟨_, hb, ha, rfl⟩ hbare (hw _)⟩
    rw [isValuePtr, release_or ty.word hmask (by decide), if_neg hne, if_neg (by decide), if_pos rfl]
    exact if_pos (Option.isSome_of_eq_some h)

/-- `takeValue()` by the payload and the tag. -/
theorem takeValue_or (ha : a &&& mask = 0) {k : ℕ} (hk : k < 4) :
    s.takeValue ty o (a ||| BitVec.ofNat (8 * n) k) =
      if k = 1 then
        if a = 0 then .error .assertion
        else match s.heap a with
          | none => .error .dangling
          | some v => .ok (({ s.setBits o (some consumed) with
              heap := Function.update s.heap a none } : State O n V).output (.value v))
      else match ty.inline with
        | none => .error .assertion
        | some i =>
          if k = 2 ∨ k = 3 then
            .ok ((s.setBits o (some consumed)).output
              (.value (i.load (if k = 3 then a >>> typeBits else a))))
          else .error .assertion := by
  unfold State.takeValue
  rw [take_or ha hk]
  simp only [isValuePtr, isInlineValue, isShiftedInlineValue, tag_inj ty.word hk (show 1 < 4 by decide),
    tag_inj ty.word hk (show 2 < 4 by decide), tag_inj ty.word hk (show 3 < 4 by decide)]
  rfl

/-- A word without a value: there is nothing to take. -/
theorem takeValue_error (ha : a &&& mask = 0) {k : ℕ} (hk : k < 2) (h : k = 1 → a = 0) :
    s.takeValue ty o (a ||| BitVec.ofNat (8 * n) k) = .error .assertion := by
  rw [takeValue_or ha (hk.trans (by decide))]
  by_cases hk₁ : k = 1
  · rw [if_pos hk₁, if_pos (h hk₁)]
  · rw [if_neg hk₁]
    cases ty.inline with
    | none => rfl
    | some i => exact if_neg (by omega)

/-- `takeValue()` returns the value that the object holds, and nothing else. -/
theorem Denotes.takeValue (hd : Denotes ty s t) (hb : s.bits o = some b) (hc : t.content o = some c) :
    Matches (Denotes ty) .assertion (s.takeValue ty o b) (t.step (.takeValue o)) := by
  have htaken : ∀ heap, Option.Rel (Represents ty heap) (some consumed) (some .consumed) :=
    fun _ => .some .consumed
  have hbare : ∀ b : Word n, some consumed = some b → Bare b := by
    intro b hb
    cases hb
    exact bare_consumed ty.word
  have hstep : ∀ v, c = .value v →
      t.step (.takeValue o) = .ok ((t.put o (some .consumed)).output (.value v)) := by
    intro v hv
    simp only [Contents.step, Contents.withContent, hc, hv]
  have hnone : (∀ v, c ≠ .value v) → t.step (.takeValue o) = .error .assertion := by
    intro hv
    rw [Contents.step, Contents.withContent, hc]
    cases c with
    | value v => exact absurd rfl (hv v)
    | _ => rfl
  cases hd.represents hb hc with
  | empty =>
    rw [hnone (by simp), isPromise, takeValue_error zero_and_mask (by decide) (fun _ => rfl)]
    exact .error
  | consumed =>
    rw [hnone (by simp), isValuePtr, takeValue_error zero_and_mask (by decide) (fun _ => rfl)]
    exact .error
  | promise hp =>
    rw [hnone (by simp), isPromise, takeValue_error (k := 0) (isPointer_iff.1 hp).2 (by decide) (by simp)]
    exact .error
  | @inline i v hi h =>
    rw [hstep v rfl, isInlineValue, takeValue_or h (by decide), if_neg (by decide), hi]
    simp only [true_or, if_true, if_neg (show ¬ 2 = 3 by decide), i.load_store]
    exact .ok ((hd.put (not_owner hb (bare_of_tag ty.word h (by decide) (by decide))) hbare
      (htaken _)).output _)
  | @shifted i v hi h =>
    have hmask := shiftLeft_and_mask (i.store v) typeBits
    have hle : typeBits ≤ 8 * n := by
      have := ty.word
      unfold typeBits
      omega
    rw [hstep v rfl, isShiftedInlineValue, takeValue_or hmask (by decide), if_neg (by decide), hi]
    simp only [or_true, if_true, shiftLeft_shiftRight hle h, i.load_store]
    exact .ok ((hd.put (not_owner hb (bare_of_tag ty.word hmask (by decide) (by decide))) hbare
      (htaken _)).output _)
  | @pointer a v ha h =>
    obtain ⟨hne, hmask⟩ := isPointer_iff.1 ha
    rw [hstep v rfl, isValuePtr, takeValue_or hmask (by decide), if_pos rfl, if_neg hne, h]
    exact .ok ((hd.delete ⟨_, hb, ha, rfl⟩ hbare (htaken _)).output _)

/-! ### Moves -/

/-- Two objects change places. -/
theorem Denotes.swap (hd : Denotes ty s t) (o rhs : O) :
    Denotes ty { s with bits := s.bits ∘ Equiv.swap o rhs }
      { t with content := t.content ∘ Equiv.swap o rhs } where
  words o' := hd.words _
  owned a ha := by
    obtain ⟨o', b, hb, hp⟩ := hd.owned a ha
    exact ⟨Equiv.swap o rhs o', b, by simpa using hb, hp⟩
  unique o₁ o₂ a h₁ h₂ := (Equiv.swap o rhs).injective (hd.unique _ _ a h₁ h₂)
  destroyed := hd.destroyed
  outputs := hd.outputs

theorem update_comp_swap {α : Type*} (f : O → α) (hne : o ≠ rhs) (x : α) :
    Function.update (f ∘ Equiv.swap o rhs) rhs x =
      Function.update (Function.update f rhs x) o (f rhs) := by
  rw [Equiv.comp_swap_eq_update, Function.update_comm hne, Function.update_idem]

theorem Denotes.moveConstruct (hd : Denotes ty s t) (hnone : s.bits o = none)
    (hb : s.bits rhs = some b) (hc : t.content rhs = some c) :
    Denotes ty ((s.setBits rhs (some 0)).setBits o (some b))
      ((t.put rhs (some .empty)).put o (some c)) := by
  have hne : o ≠ rhs := by
    rintro rfl
    rw [hb] at hnone
    cases hnone
  have hd' := hd.swap o rhs
  have hput := hd'.put (o := rhs) (w := some 0) (c := some .empty) ?_ ?_ (.some ?_)
  · unfold State.setBits Contents.put at hput ⊢
    simpa only [update_comp_swap _ hne, hb, hc] using hput
  · rintro a ⟨b', hb', -⟩
    simp [hnone] at hb'
  · rintro b' ⟨⟩
    exact bare_empty ty.word
  · exact represents_zero

/-- The object that is assigned to and the other one change places, and what the first one held is
released. -/
theorem Denotes.moveAssign (hd : Denotes ty s t) (hne : o ≠ rhs) (hold : s.bits o = some old)
    (hc' : t.content o = some c') (hb : s.bits rhs = some b) (hc : t.content rhs = some c) :
    ∃ s', ((s.setBits rhs (some 0)).setBits o (some b)).release old = .ok s' ∧
      Denotes ty s' (((t.put rhs (some .empty)).put o (some c)).release c') := by
  have hd' := hd.swap o rhs
  have hempty : ∀ heap, Option.Rel (Represents ty heap) (some 0) (some .empty) :=
    fun _ => .some represents_zero
  have hrel := hd'.release (o := rhs) (b := old) (c := c') (w := some 0) (by simpa using hold)
    (by simpa using hc') ?_ hempty
  · unfold State.setBits Contents.put at hrel ⊢
    simpa only [update_comp_swap _ hne, hb, hc] using hrel
  · rintro b' ⟨⟩
    exact bare_empty ty.word

/-! ### Runs -/

/-- The pointers are aligned and not null, and `new` returns an address that is not in use. -/
def Allocates (s : State O n V) : Action O n V → Prop
  | .constructPromise _ p => isPointer p
  | .constructValue _ _ address => isPointer address ∧ (s.heap address).isNone
  | _ => True

instance (s : State O n V) : ∀ x, Decidable (Allocates s x)
  | .constructPromise _ p => inferInstanceAs (Decidable (isPointer p = true))
  | .constructValue _ _ address =>
    inferInstanceAs (Decidable (isPointer address = true ∧ (s.heap address).isNone = true))
  | .construct _ | .moveConstruct _ _ | .moveAssign _ _ | .promise _ | .takePromise _ | .takeValue _
  | .destroy _ => isTrue trivial

/-- Both calls do the same, or fail alike: no value is accessed that is not there. -/
def Agree (ty : ValueType n V) (x : Except Fault (State O n V)) (y : Except Fault (Contents O n V)) :
    Prop :=
  ∃ e, e ≠ .dangling ∧ Matches (Denotes ty) e x y

omit [DecidableEq O] in
theorem agree_error {e : Fault} (he : e ≠ .dangling) :
    Agree ty (.error e : Except Fault (State O n V)) (.error e) :=
  ⟨e, he, .error⟩

omit [DecidableEq O] in
theorem Denotes.agree (hd : Denotes ty s t) : Agree ty (.ok s) (.ok t) := ⟨.lifetime, nofun, .ok hd⟩

omit [DecidableEq O] in
theorem Denotes.create (hd : Denotes ty s t) {f : Except Fault (State O n V)}
    {g : Except Fault (Contents O n V)} (h : s.bits o = none → Agree ty f g) :
    Agree ty (s.create o f) (t.create o g) := by
  unfold State.create Contents.create
  rw [← hd.isSome_eq o]
  cases hb : s.bits o with
  | none => exact h hb
  | some b => exact agree_error nofun

omit [DecidableEq O] in
theorem Denotes.withBits (hd : Denotes ty s t) {f : Word n → Except Fault (State O n V)}
    {g : Content n V → Except Fault (Contents O n V)}
    (h : ∀ b c, s.bits o = some b → t.content o = some c → Agree ty (f b) (g c)) :
    Agree ty (s.withBits o f) (t.withContent o g) := by
  unfold State.withBits Contents.withContent
  cases hb : s.bits o with
  | none =>
    rw [hd.content_none hb]
    exact agree_error nofun
  | some b =>
    obtain ⟨c, hc, -⟩ := hd.content hb
    rw [hc]
    exact h b c hb hc

omit [DecidableEq O] in
theorem not_owner_of_none (hb : s.bits o = none) (a : Word n) : ¬ s.Owner o a := by
  rintro ⟨b, hb', -⟩
  rw [hb] at hb'
  cases hb'

/-- A new object, with a word that is not a pointer to a value. -/
theorem Denotes.new (hd : Denotes ty s t) (hnone : s.bits o = none) (hbare : Bare b)
    (hrep : Represents ty s.heap b c) : Denotes ty (s.setBits o (some b)) (t.put o (some c)) := by
  refine hd.put (not_owner_of_none hnone) ?_ (.some hrep)
  rintro b' ⟨⟩
  exact hbare

/-- `promise()` returns the pointer that the object holds, or a null pointer. -/
theorem Denotes.promise (hd : Denotes ty s t) (hb : s.bits o = some b) (hc : t.content o = some c) :
    Agree ty (if b &&& mask = isPromise then .ok (s.output (.promise b)) else .error .assertion)
      (t.step (.promise o)) := by
  have h := hd.represents hb hc
  rw [Contents.step, Contents.withContent, hc]
  have hp : b &&& mask = isPromise ↔ _ := beq_iff_eq.symm.trans h.hasPromise_iff
  cases c with
  | empty =>
    rw [if_pos (hp.2 (.inl rfl)), h.eq_of_empty]
    exact (hd.output _).agree
  | promise p =>
    rw [if_pos (hp.2 (.inr ⟨p, rfl⟩)), h.eq_of_promise]
    exact (hd.output _).agree
  | consumed =>
    rw [if_neg fun hm => by simpa using hp.1 hm]
    exact agree_error nofun
  | value v =>
    rw [if_neg fun hm => by simpa using hp.1 hm]
    exact agree_error nofun

/-- `takePromise()` returns the pointer that the object holds, and the object is empty. -/
theorem Denotes.takePromise (hd : Denotes ty s t) (hb : s.bits o = some b) (hc : t.content o = some c) :
    Agree ty (if b ≠ 0 ∧ b &&& mask = isPromise then
        .ok ((s.setBits o (some 0)).output (.promise (b &&& ~~~mask)))
      else .error .assertion) (t.step (.takePromise o)) := by
  have h := hd.represents hb hc
  rw [Contents.step, Contents.withContent, hc]
  have hp : b &&& mask = isPromise ↔ _ := beq_iff_eq.symm.trans h.hasPromise_iff
  cases c with
  | empty =>
    rw [if_neg fun hm => hm.1 h.eq_of_empty]
    exact agree_error nofun
  | promise p =>
    obtain rfl := h.eq_of_promise
    have hbare : Bare b := fun a ha => by
      obtain ⟨v, hv, -⟩ := h.pointsTo ha
      cases hv
    obtain ⟨hne, hmask⟩ := isPointer_iff.1 h.isPointer_of_promise
    have hbits : b &&& ~~~mask = b := by
      have := payload_or hmask (tag_and_mask (n := n) (k := 0) (by decide))
      simpa using this
    rw [if_pos ⟨hne, hp.2 (.inr ⟨b, rfl⟩)⟩, hbits]
    refine ((hd.put (not_owner hb hbare) ?_ (.some represents_zero)).output _).agree
    rintro b' ⟨⟩
    exact bare_empty ty.word
  | consumed =>
    rw [if_neg fun hm => by simpa using hp.1 hm.2]
    exact agree_error nofun
  | value v =>
    rw [if_neg fun hm => by simpa using hp.1 hm.2]
    exact agree_error nofun

/-- An object that is assigned to itself keeps what it holds. -/
theorem Denotes.moveAssign_self (hd : Denotes ty s t) (hb : s.bits o = some b)
    (hc : t.content o = some c) :
    Agree ty ((s.setBits o (some 0)).withBits o fun old =>
        ((s.setBits o (some 0)).setBits o (some b)).release old)
      ((t.put o (some .empty)).withContent o fun old =>
        .ok (((t.put o (some .empty)).put o (some c)).release old)) := by
  have hs : (s.setBits o (some 0)).setBits o (some b) = s := by
    unfold State.setBits
    simp only [Function.update_idem, ← hb, Function.update_eq_self]
  have ht : (t.put o (some .empty)).put o (some c) = t := by
    unfold Contents.put
    simp only [Function.update_idem, ← hc, Function.update_eq_self]
  have hrelease : s.release 0 = .ok s := by
    have h₀ : (0 : Word n) = 0 ||| BitVec.ofNat (8 * n) 0 := by simp
    rw [h₀, release_or ty.word zero_and_mask (by decide), if_pos rfl]
  unfold State.withBits Contents.withContent
  rw [hs, ht]
  simp only [State.setBits, Contents.put, Function.update_self]
  rw [hrelease]
  exact hd.agree

theorem step_matches (hd : Denotes ty s t) (x : Action O n V) (hx : Allocates s x) :
    Agree ty (step ty s x) (t.step x) := by
  cases x with
  | construct o => exact hd.create fun hnone => (hd.new hnone (bare_empty ty.word) represents_zero).agree
  | constructPromise o p =>
    refine hd.create fun hnone => ?_
    show Agree ty (if isPointer p then _ else _) _
    rw [if_pos (show isPointer p = true from hx)]
    exact (hd.new hnone (bare_of_tag ty.word (isPointer_iff.1 hx).2 (by decide) (by decide))
      (.promise hx)).agree
  | constructValue o v address =>
    refine hd.create fun hnone => ?_
    cases hv : ofValue ty v with
    | some b => exact (hd.new hnone (bare_ofValue hv) (ofValue_represents hv)).agree
    | none =>
      have hnew : isPointer address ∧ (s.heap address).isNone := hx
      show Agree ty (if _ then _ else _) _
      rw [if_pos hnew]
      exact (hd.allocate (not_owner_of_none hnone) hx.1 (Option.isNone_iff_eq_none.1 hx.2) v).agree
  | moveConstruct o rhs =>
    refine hd.create fun hnone => hd.withBits fun b c hb hc => ?_
    exact (hd.moveConstruct hnone hb hc).agree
  | moveAssign o rhs =>
    refine hd.withBits fun b c hb hc => ?_
    by_cases hne : o = rhs
    · subst hne
      exact hd.moveAssign_self hb hc
    · have hbits : (s.setBits rhs (some 0)).bits o = s.bits o := Function.update_of_ne hne _ _
      have hcontent : (t.put rhs (some .empty)).content o = t.content o := Function.update_of_ne hne _ _
      unfold State.withBits Contents.withContent
      rw [hbits, hcontent]
      refine hd.withBits fun old c' hold hc' => ?_
      obtain ⟨s', hs', hd'⟩ := hd.moveAssign hne hold hc' hb hc
      rw [hs']
      exact hd'.agree
  | promise o =>
    refine hd.withBits fun b c hb hc => ?_
    have hm := hd.promise hb hc
    rwa [Contents.step, Contents.withContent, hc] at hm
  | takePromise o =>
    refine hd.withBits fun b c hb hc => ?_
    have hm := hd.takePromise hb hc
    rwa [Contents.step, Contents.withContent, hc] at hm
  | takeValue o =>
    refine hd.withBits fun b c hb hc => ?_
    have hm := hd.takeValue hb hc
    rw [Contents.step, Contents.withContent, hc] at hm
    exact ⟨.assertion, nofun, hm⟩
  | destroy o =>
    refine hd.withBits fun b c hb hc => ?_
    have hnone : ∀ heap, Option.Rel (Represents ty heap) none none := fun _ => .none
    obtain ⟨s', hs', hd'⟩ := hd.release (w := none) hb hc (by simp) hnone
    rw [hs']
    exact hd'.agree

/-- The observers tell what an object holds, except that an empty object is said to have a promise, and
a consumed one a value. -/
structure Observed (b : Word n) (c : Content n V) : Prop where
  isEmpty : isEmpty b = true ↔ c = .empty
  isConsumed : isConsumed b = true ↔ c = .consumed
  hasPromise : hasPromise b = true ↔ c = .empty ∨ ∃ p, c = .promise p
  hasValue : hasValue b = true ↔ c = .consumed ∨ ∃ v, c = .value v

/-- **What goes into an object comes out of it.**  Whatever the values are and whichever of them fit into
a word, with or without free bits: a run does to the words what it does to the contents, it returns the
values and promises that the objects held, and fails where there are none.  The observers tell what an
object holds.  Every value on the heap belongs to exactly one object, which holds it. -/
theorem value_or_promise (ty : ValueType n V) (l : List (Action O n V))
    (hl : Meets (step ty) Allocates .init l) :
    Agree ty (exec (step ty) .init l) (exec Contents.step .init l) ∧
      ∀ s t, exec (step ty) .init l = .ok s → exec Contents.step .init l = .ok t →
        s.outputs = t.outputs ∧ s.destroyed = t.destroyed ∧
        (∀ o, (s.bits o).isSome = (t.content o).isSome) ∧
        (∀ o b c, s.bits o = some b → t.content o = some c → Observed b c) ∧
        ∀ a v, s.heap a = some v → ∃! o, t.content o = some (.value v) ∧ s.Owner o a := by
  have hagree : Agree ty (exec (step ty) .init l) (exec Contents.step .init l) :=
    exec_matches_of (E := fun e => e ≠ Fault.dangling) (e := .lifetime) (by decide)
      (fun _ _ x hd hx => step_matches hd x hx) (denotes_init ty) hl
  refine ⟨hagree, fun s t hs ht => ?_⟩
  rw [hs, ht] at hagree
  obtain ⟨e, -, hm⟩ := hagree
  cases hm with
  | ok hd =>
    refine ⟨hd.outputs, hd.destroyed, hd.isSome_eq, fun o b c hb hc => ?_, fun a v ha => ?_⟩
    · have hrep := hd.represents hb hc
      exact ⟨hrep.isEmpty_iff, hrep.isConsumed_iff, hrep.hasPromise_iff, hrep.hasValue_iff⟩
    · obtain ⟨o, b, hb, hp⟩ := hd.owned a (Option.isSome_of_eq_some ha)
      have ho : s.Owner o a := ⟨b, hb, hp⟩
      obtain ⟨c, hc, hrep⟩ := hd.content hb
      obtain ⟨v', rfl, hv'⟩ := hrep.pointsTo hp
      rw [ha] at hv'
      cases hv'
      exact ⟨o, ⟨hc, ho⟩, fun o' ho' => hd.unique o' o a ho'.2 ho⟩

/-- The words of eight bytes. -/
def words : ValueType 8 (BitVec 64) where
  word := by decide
  word_le := by decide
  inline := some ⟨8, by decide, false, id, id, fun _ => rfl, nofun⟩

/-- A value with free low bits, one with free high bits, and one with neither are moved and taken; two
promises are moved, of which one is taken and the other one destroyed. -/
def exchanged : List (Action ℕ 8 (BitVec 64)) :=
  [.constructValue 0 8 16, .constructValue 1 7 16, .constructValue 2 9223372036854775809 16,
    .moveConstruct 3 2, .constructPromise 4 32, .takeValue 0, .moveAssign 0 4, .takeValue 1,
    .moveAssign 1 3, .takeValue 1, .takePromise 0, .destroy 4, .constructPromise 4 64, .moveAssign 4 0]

theorem value_or_promise_exchanged :
    Agree words (exec (step words) .init exchanged) (exec Contents.step .init exchanged) ∧
      (exec (step words) .init exchanged).map (fun s => (s.outputs, s.destroyed)) =
        .ok ([.value 8, .value 7, .value 9223372036854775809, .promise 32], [64]) :=
  ⟨(value_or_promise words exchanged (by decide +kernel)).1, by decide +kernel⟩

end Corral.ValueOrPromise
