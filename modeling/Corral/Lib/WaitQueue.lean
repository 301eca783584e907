import Corral.Lib.Registry

/-!
# Wait queues that may be left

Waiters arrive, are served in the order of their arrival, and may leave before that.

* `Fifo arrivals left served waiting`: those served, followed by those that wait, are those that have
  arrived and not left;
* `Fifo.arrive`, `Fifo.leave`, `Fifo.serve`: what can happen;
* `Batch`: a call that serves everybody who waited when it began, and `Lists`: a wait list with the
  calls in progress, each with a list of its own, which the waiters may leave as well;
* `Lists.Sound`: nobody is in two lists, and every call is in order, kept by `Lists.put`,
  `Lists.unlink`, `Lists.start`, `Lists.serve` and `Lists.finish`;
* `Accounted`: what the calls that have ended and those in progress have done has happened;
* `Enrolled`: the lists agree with a registry about who waits.
-/

namespace WaitQueue

variable {ι : Type*}

section Fifo

variable [DecidableEq ι] {arrivals left served waiting : List ι} {i : ι}

/-- Those served, followed by those that wait, are those that have arrived and not left, in the order
of their arrival. -/
structure Fifo (arrivals left served waiting : List ι) : Prop where
  nodup : arrivals.Nodup
  order : served ++ waiting = arrivals.filter fun i => i ∉ left

theorem Fifo.nil : Fifo ([] : List ι) [] [] [] := ⟨List.nodup_nil, rfl⟩

theorem Fifo.nodup_append (h : Fifo arrivals left served waiting) : (served ++ waiting).Nodup :=
  h.order ▸ h.nodup.filter _

theorem Fifo.mem_iff (h : Fifo arrivals left served waiting) :
    i ∈ served ∨ i ∈ waiting ↔ i ∈ arrivals ∧ i ∉ left := by
  rw [← List.mem_append, h.order]
  simp

theorem Fifo.arrive (h : Fifo arrivals left served waiting) (hi : i ∉ arrivals) (hl : i ∉ left) :
    Fifo (arrivals ++ [i]) left served (waiting ++ [i]) := by
  refine ⟨?_, ?_⟩
  · rw [List.nodup_append]
    exact ⟨h.nodup, List.nodup_singleton i, by rintro a ha b hb rfl; simp_all⟩
  · rw [← List.append_assoc, h.order, List.filter_append]
    simp [hl]

theorem Fifo.leave (h : Fifo arrivals left served waiting) (hi : i ∈ waiting) :
    Fifo arrivals (left ++ [i]) served (waiting.erase i) := by
  refine ⟨h.nodup, ?_⟩
  have hout : i ∉ served := fun hs => List.disjoint_of_nodup_append h.nodup_append hs hi
  rw [← List.erase_append_right _ hout, h.nodup_append.erase_eq_filter, h.order, List.filter_filter]
  refine List.filter_congr fun j _ => ?_
  by_cases hj : j = i <;> simp [hj]

theorem Fifo.serve {rest : List ι} (h : Fifo arrivals left served (i :: rest)) :
    Fifo arrivals left (served ++ [i]) rest :=
  ⟨h.nodup, by rw [← h.order]; simp⟩

theorem Fifo.start {waiting : List ι} (h : waiting.Nodup) : Fifo waiting [] [] waiting :=
  ⟨h, by simp⟩

end Fifo

/-! ### Batches -/

/-- A call that serves everybody who waited when it began, with what it needs for that: who waited,
who has left before being served, who has been served, and who is still to be. -/
structure Batch (ι δ : Type*) where
  data : δ
  snapshot : List ι
  left : List ι
  served : List ι
  pending : List ι

/-- A wait list, and the calls in progress, the innermost first. -/
structure Lists (ι δ : Type*) where
  waiting : List ι
  batches : List (Batch ι δ)

variable {δ : Type*} {l : Lists ι δ} {b : Batch ι δ} {bs : List (Batch ι δ)} {rest : List ι}
  {i j : ι}

/-- Everybody who is in some list. -/
def Lists.all (l : Lists ι δ) : List ι := l.batches.flatMap Batch.pending ++ l.waiting

def Lists.put (l : Lists ι δ) (i : ι) : Lists ι δ := { l with waiting := l.waiting ++ [i] }

/-- A call begins. -/
def Lists.start (l : Lists ι δ) (d : δ) : Lists ι δ :=
  ⟨[], ⟨d, l.waiting, [], [], l.waiting⟩ :: l.batches⟩

/-- The call in progress serves `i`; the others are still to be served. -/
def Batch.serve (b : Batch ι δ) (i : ι) (rest : List ι) : Batch ι δ :=
  { b with served := b.served ++ [i], pending := rest }

/-! What becomes of those who are in some list. -/

theorem mem_all : i ∈ l.all ↔ (∃ b ∈ l.batches, i ∈ b.pending) ∨ i ∈ l.waiting := by
  simp [Lists.all]

theorem mem_start (d : δ) : j ∈ (l.start d).all ↔ j ∈ l.all := by
  simp only [Lists.all, Lists.start, List.flatMap_cons, List.mem_append, List.append_nil]
  tauto

theorem all_serve (hb : l.batches = b :: bs) (hp : b.pending = i :: rest) :
    l.all = i :: ({ l with batches := b.serve i rest :: bs } : Lists ι δ).all := by
  simp [Lists.all, hb, hp, Batch.serve]

theorem all_finish (hb : l.batches = b :: bs) (hp : b.pending = []) :
    ({ l with batches := bs } : Lists ι δ).all = l.all := by
  simp [Lists.all, hb, hp]

theorem all_put (l : Lists ι δ) (i : ι) : (l.put i).all = l.all ++ [i] := by
  simp [Lists.all, Lists.put]

theorem mem_put : j ∈ (l.put i).all ↔ j ∈ l.all ∨ j = i := by
  rw [all_put, List.mem_append, List.mem_singleton]

theorem mem_finish (hb : l.batches = b :: bs) (hp : b.pending = []) :
    j ∈ ({ l with batches := bs } : Lists ι δ).all ↔ j ∈ l.all := by
  rw [all_finish hb hp]

section Sound

variable [DecidableEq ι]

def Batch.unlink (b : Batch ι δ) (i : ι) : Batch ι δ :=
  if i ∈ b.pending then { b with left := b.left ++ [i], pending := b.pending.erase i } else b

/-- Whatever list `i` is in, it leaves it. -/
def Lists.unlink (l : Lists ι δ) (i : ι) : Lists ι δ :=
  ⟨l.waiting.erase i, l.batches.map (·.unlink i)⟩

def Batch.Ordered (b : Batch ι δ) : Prop := Fifo b.snapshot b.left b.served b.pending

/-- Nobody is in two lists, and every call is in order. -/
structure Lists.Sound (l : Lists ι δ) : Prop where
  nodup : l.all.Nodup
  ordered : ∀ b ∈ l.batches, b.Ordered

theorem pending_unlink (b : Batch ι δ) (i : ι) : (b.unlink i).pending = b.pending.erase i := by
  unfold Batch.unlink
  by_cases hi : i ∈ b.pending
  · rw [if_pos hi]
  · rw [if_neg hi, List.erase_of_not_mem hi]

theorem snapshot_unlink (b : Batch ι δ) (i : ι) : (b.unlink i).snapshot = b.snapshot := by
  unfold Batch.unlink
  split_ifs <;> rfl

theorem served_unlink (b : Batch ι δ) (i : ι) : (b.unlink i).served = b.served := by
  unfold Batch.unlink
  split_ifs <;> rfl

theorem data_unlink (b : Batch ι δ) (i : ι) : (b.unlink i).data = b.data := by
  unfold Batch.unlink
  split_ifs <;> rfl

theorem mem_left_unlink (hj : j ∈ (b.unlink i).left) : j ∈ b.left ∨ j = i ∧ i ∈ b.pending := by
  unfold Batch.unlink at hj
  split_ifs at hj with hi
  · rw [List.mem_append, List.mem_singleton] at hj
    exact hj.imp_right fun h => ⟨h, hi⟩
  · exact .inl hj

theorem Batch.Ordered.unlink (h : b.Ordered) (i : ι) : (b.unlink i).Ordered := by
  unfold Batch.unlink
  by_cases hi : i ∈ b.pending
  · rw [if_pos hi]
    exact Fifo.leave h hi
  · rwa [if_neg hi]

/-- A call does not serve more than it has found. -/
theorem Batch.Ordered.length_le (h : b.Ordered) :
    b.served.length + b.pending.length ≤ b.snapshot.length := by
  have hlen := congrArg List.length (Fifo.order h)
  rw [List.length_append] at hlen
  rw [hlen]
  exact List.length_filter_le _ _

theorem Lists.Sound.nil : (⟨[], []⟩ : Lists ι δ).Sound := ⟨List.nodup_nil, nofun⟩

theorem Lists.Sound.waiting_nodup (h : l.Sound) : l.waiting.Nodup :=
  (List.nodup_append.1 h.nodup).2.1

theorem all_unlink (h : l.Sound) (i : ι) : (l.unlink i).all = l.all.filter (· != i) := by
  have hfm : ∀ bs : List (Batch ι δ), (∀ b ∈ bs, b.pending.Nodup) →
      (bs.map (·.unlink i)).flatMap Batch.pending
        = (bs.flatMap Batch.pending).filter (· != i) := by
    intro bs hbs
    induction bs with
    | nil => rfl
    | cons b bs ih =>
      rw [List.map_cons, List.flatMap_cons, List.flatMap_cons, List.filter_append, pending_unlink,
        (hbs b List.mem_cons_self).erase_eq_filter, ih fun c hc => hbs c (List.mem_cons_of_mem b hc)]
  rw [Lists.all, Lists.all, List.filter_append]
  congr 1
  · exact hfm _ fun b hb => (List.nodup_append.1 (h.ordered b hb).nodup_append).2.1
  · rw [Lists.unlink, h.waiting_nodup.erase_eq_filter]

theorem unlink_of_notMem (hi : i ∉ l.all) : l.unlink i = l := by
  obtain ⟨waiting, batches⟩ := l
  have hw : i ∉ waiting := fun hm => hi (mem_all.2 (.inr hm))
  have hb : ∀ b ∈ batches, b.unlink i = b := by
    intro b hb
    rw [Batch.unlink, if_neg fun hm => hi (mem_all.2 (.inl ⟨b, hb, hm⟩))]
  rw [Lists.unlink, List.erase_of_not_mem hw, List.map_congr_left hb, List.map_id']

theorem mem_unlink (h : l.Sound) : j ∈ (l.unlink i).all ↔ j ∈ l.all ∧ j ≠ i := by
  rw [all_unlink h, List.mem_filter, bne_iff_ne]

/-- Those who are in the lists in the order in which they were last put there still are when one
more is. -/
theorem sublist_dedup_concat {puts waiting : List ι} (h : waiting.Sublist puts.dedup)
    (hi : i ∉ waiting) : (waiting ++ [i]).Sublist (puts ++ [i]).dedup := by
  induction puts generalizing waiting with
  | nil =>
    rw [List.dedup_nil, List.sublist_nil] at h
    simp [h]
  | cons j puts ih =>
    rw [List.cons_append]
    by_cases hj : j ∈ puts
    · rw [List.dedup_cons_of_mem hj] at h
      rw [List.dedup_cons_of_mem (List.mem_append_left _ hj)]
      exact ih h hi
    · rw [List.dedup_cons_of_notMem hj] at h
      by_cases hji : j = i
      · rw [List.dedup_cons_of_mem (by simp [hji])]
        refine ih ?_ hi
        cases h with
        | cons _ h => exact h
        | cons_cons _ h => exact absurd (hji ▸ List.mem_cons_self) hi
      · rw [List.dedup_cons_of_notMem (by simp [hj, hji])]
        cases h with
        | cons _ h => exact (ih h hi).cons j
        | cons_cons _ h => exact (ih h fun hm => hi (List.mem_cons_of_mem j hm)).cons_cons j

/-! What keeps the lists sound. -/

theorem Lists.Sound.put (h : l.Sound) (hi : i ∉ l.all) : (l.put i).Sound := by
  refine ⟨?_, h.ordered⟩
  rw [all_put, List.nodup_append]
  refine ⟨h.nodup, List.nodup_singleton i, ?_⟩
  intro x hx y hy hxy
  rw [hxy, List.mem_singleton.1 hy] at hx
  exact hi hx

theorem Lists.Sound.unlink (h : l.Sound) (i : ι) : (l.unlink i).Sound := by
  refine ⟨?_, ?_⟩
  · rw [all_unlink h]
    exact h.nodup.filter _
  · intro b hb
    obtain ⟨c, hc, rfl⟩ := List.mem_map.1 hb
    exact (h.ordered c hc).unlink i

theorem Lists.Sound.start (h : l.Sound) (d : δ) : (l.start d).Sound := by
  refine ⟨?_, ?_⟩
  · have hp : (l.start d).all.Perm l.all := by
      simp only [Lists.all, Lists.start, List.flatMap_cons, List.append_nil]
      exact List.perm_append_comm
    exact hp.nodup_iff.2 h.nodup
  · intro b hb
    rcases List.mem_cons.1 hb with rfl | hb
    · exact Fifo.start h.waiting_nodup
    · exact h.ordered b hb

theorem Lists.Sound.serve (h : l.Sound) (hb : l.batches = b :: bs) (hp : b.pending = i :: rest) :
    ({ l with batches := b.serve i rest :: bs } : Lists ι δ).Sound ∧
    i ∉ ({ l with batches := b.serve i rest :: bs } : Lists ι δ).all := by
  have hn := h.nodup
  rw [all_serve hb hp, List.nodup_cons] at hn
  refine ⟨⟨hn.2, ?_⟩, hn.1⟩
  intro c hc
  rcases List.mem_cons.1 hc with rfl | hc
  · have ho : b.Ordered := h.ordered b (hb ▸ List.mem_cons_self)
    unfold Batch.Ordered at ho
    rw [hp] at ho
    exact ho.serve
  · exact h.ordered c (hb ▸ List.mem_cons_of_mem b hc)

theorem Lists.Sound.finish (h : l.Sound) (hb : l.batches = b :: bs) (hp : b.pending = []) :
    ({ l with batches := bs } : Lists ι δ).Sound :=
  ⟨by rw [all_finish hb hp]; exact h.nodup, fun c hc => h.ordered c (hb ▸ List.mem_cons_of_mem b hc)⟩

theorem Lists.Sound.pop (h : l.Sound) (hw : l.waiting = i :: rest) :
    ({ l with waiting := rest } : Lists ι δ).Sound := by
  refine ⟨h.nodup.sublist ?_, h.ordered⟩
  rw [Lists.all, Lists.all, hw]
  exact (List.Sublist.refl _).append (List.sublist_cons_self i rest)

end Sound

/-! ### What the calls have done -/

/-- Those whom the calls have passed over have gone, and those whom they have served have been met. -/
structure Accounted (calls : List (Batch ι δ)) (gone met : ι → Prop) : Prop where
  left : ∀ b ∈ calls, ∀ i ∈ b.left, gone i
  served : ∀ b ∈ calls, ∀ i ∈ b.served, met i

namespace Accounted

variable {ended calls : List (Batch ι δ)} {gone met : ι → Prop}

theorem mono {gone' met' : ι → Prop} (h : Accounted calls gone met) (hg : ∀ i, gone i → gone' i)
    (hm : ∀ i, met i → met' i) : Accounted calls gone' met' :=
  ⟨fun b hb i hi => hg i (h.left b hb i hi), fun b hb i hi => hm i (h.served b hb i hi)⟩

theorem start (h : Accounted (ended ++ bs) gone met) (d : δ) (waiting : List ι) :
    Accounted (ended ++ ⟨d, waiting, [], [], waiting⟩ :: bs) gone met := by
  constructor
  all_goals
    intro b hb i hi
    rcases List.mem_append.1 hb with hb | hb
  · exact h.left b (List.mem_append_left _ hb) i hi
  · rcases List.mem_cons.1 hb with rfl | hb
    · cases hi
    · exact h.left b (List.mem_append_right _ hb) i hi
  · exact h.served b (List.mem_append_left _ hb) i hi
  · rcases List.mem_cons.1 hb with rfl | hb
    · cases hi
    · exact h.served b (List.mem_append_right _ hb) i hi

/-- Whoever leaves is gone. -/
theorem unlink [DecidableEq ι] (h : Accounted (ended ++ bs) gone met) (hi : gone i) :
    Accounted (ended ++ bs.map (·.unlink i)) gone met := by
  constructor
  all_goals
    intro b hb j hj
    rcases List.mem_append.1 hb with hb | hb
  · exact h.left b (List.mem_append_left _ hb) j hj
  · obtain ⟨c, hc, rfl⟩ := List.mem_map.1 hb
    rcases mem_left_unlink hj with hj | ⟨rfl, -⟩
    · exact h.left c (List.mem_append_right _ hc) j hj
    · exact hi
  · exact h.served b (List.mem_append_left _ hb) j hj
  · obtain ⟨c, hc, rfl⟩ := List.mem_map.1 hb
    rw [served_unlink] at hj
    exact h.served c (List.mem_append_right _ hc) j hj

/-- Whoever is served is met. -/
theorem serve (h : Accounted (ended ++ b :: bs) gone met) (hi : met i) (rest : List ι) :
    Accounted (ended ++ b.serve i rest :: bs) gone met := by
  have hb : b ∈ ended ++ b :: bs := List.mem_append_right _ List.mem_cons_self
  have hold : ∀ c ∈ ended ++ b.serve i rest :: bs, c = b.serve i rest ∨ c ∈ ended ++ b :: bs := by
    intro c hc
    simp only [List.mem_append, List.mem_cons] at hc ⊢
    tauto
  constructor
  · intro c hc j hj
    rcases hold c hc with rfl | hc
    · exact h.left b hb j hj
    · exact h.left c hc j hj
  · intro c hc j hj
    rcases hold c hc with rfl | hc
    · rcases List.mem_append.1 hj with hj | hj
      · exact h.served b hb j hj
      · rwa [List.mem_singleton.1 hj]
    · exact h.served c hc j hj

theorem finish (h : Accounted (ended ++ b :: bs) gone met) :
    Accounted (ended ++ [b] ++ bs) gone met := by
  rw [List.append_assoc, List.singleton_append]
  exact h

end Accounted

/-! ### Registered waiters -/

section Registered

open Registry

variable {β : Type*} [DecidableEq ι] {r : Reg ι β} {suspended : β → Prop} {a c : β}

/-- Those in the lists are those who are registered as suspended. -/
structure Enrolled (l : Lists ι δ) (r : Reg ι β) (suspended : β → Prop) : Prop where
  sound : l.Sound
  mem_iff : ∀ i, i ∈ l.all ↔ ∃ a, r.lookup i = some a ∧ suspended a

theorem Enrolled.nil : Enrolled (⟨[], []⟩ : Lists ι δ) (∅ : Reg ι β) suspended :=
  ⟨.nil, fun i => by simp [Lists.all]⟩

theorem Enrolled.mem_all_iff (h : Enrolled l r suspended) (ha : r.lookup i = some a) :
    i ∈ l.all ↔ suspended a := by
  rw [h.mem_iff i]
  constructor
  · rintro ⟨a', ha', hp⟩
    rw [ha] at ha'
    cases ha'
    exact hp
  · exact fun hp => ⟨a, ha, hp⟩

/-- A record is replaced, and the place in the lists changes accordingly. -/
theorem Enrolled.replace {l' : Lists ι δ} (h : Enrolled l r suspended) (hl : l'.Sound)
    (hm : ∀ x, x ∈ l'.all ↔ (x ∈ l.all ∧ x ≠ i) ∨ (x = i ∧ suspended c)) :
    Enrolled l' (r.insert i c) suspended := by
  refine ⟨hl, fun k => ?_⟩
  rw [hm k, lookup_insert_eq]
  by_cases hk : k = i
  · simp [hk]
  · rw [if_neg hk, ← h.mem_iff k]
    simp [hk]

/-- Someone who does not wait still does not. -/
theorem Enrolled.stay (h : Enrolled l r suspended) (hi : i ∉ l.all) (hc : ¬ suspended c) :
    Enrolled l (r.insert i c) suspended := by
  refine h.replace h.sound fun x => ?_
  constructor
  · exact fun hx => .inl ⟨hx, by rintro rfl; exact hi hx⟩
  · rintro (⟨hx, -⟩ | ⟨-, hx⟩)
    · exact hx
    · exact absurd hx hc

theorem Enrolled.put (h : Enrolled l r suspended) (hi : i ∉ l.all) (hc : suspended c) :
    Enrolled (l.put i) (r.insert i c) suspended := by
  refine h.replace (h.sound.put hi) fun x => mem_put.trans ?_
  constructor
  · rintro (hx | hx)
    · exact .inl ⟨hx, by rintro rfl; exact hi hx⟩
    · exact .inr ⟨hx, hc⟩
  · rintro (⟨hx, -⟩ | ⟨hx, -⟩)
    · exact .inl hx
    · exact .inr hx

theorem Enrolled.unlink (h : Enrolled l r suspended) (hc : ¬ suspended c) :
    Enrolled (l.unlink i) (r.insert i c) suspended :=
  h.replace (h.sound.unlink i) fun x => (mem_unlink h.sound).trans (by simp [hc])

theorem Enrolled.erase (h : Enrolled l r suspended) (i : ι) :
    Enrolled (l.unlink i) (r.erase i) suspended := by
  refine ⟨h.sound.unlink i, fun x => ?_⟩
  rw [mem_unlink h.sound, h.mem_iff x, lookup_erase_eq]
  by_cases hx : x = i
  · simp [hx]
  · simp [hx]

/-- The lists change, but not those who are in them. -/
theorem Enrolled.relist {l' : Lists ι δ} (h : Enrolled l r suspended) (hl : l'.Sound)
    (hm : ∀ x, x ∈ l'.all ↔ x ∈ l.all) : Enrolled l' r suspended :=
  ⟨hl, fun x => by rw [hm x]; exact h.mem_iff x⟩

theorem Enrolled.serve (h : Enrolled l r suspended) (hb : l.batches = b :: bs)
    (hp : b.pending = i :: rest) (hc : ¬ suspended c) :
    Enrolled ({ l with batches := b.serve i rest :: bs } : Lists ι δ) (r.insert i c) suspended := by
  obtain ⟨hs, hout⟩ := h.sound.serve hb hp
  refine h.replace hs fun x => ?_
  rw [all_serve hb hp, List.mem_cons]
  constructor
  · exact fun hx => .inl ⟨.inr hx, by rintro rfl; exact hout hx⟩
  · rintro (⟨rfl | hx, hne⟩ | ⟨-, hx⟩)
    · exact absurd rfl hne
    · exact hx
    · exact absurd hx hc

/-- Someone is served, and put back. -/
theorem Enrolled.reput (h : Enrolled l r suspended) (hb : l.batches = b :: bs)
    (hp : b.pending = i :: rest) :
    Enrolled (({ l with batches := b.serve i rest :: bs } : Lists ι δ).put i) r suspended := by
  obtain ⟨hs, hout⟩ := h.sound.serve hb hp
  refine h.relist (hs.put hout) fun x => mem_put.trans ?_
  rw [all_serve hb hp, List.mem_cons]
  tauto

/-- The first one who waits is served, by no call in progress. -/
theorem Enrolled.pop (h : Enrolled l r suspended) (hw : l.waiting = i :: rest)
    (hc : ¬ suspended c) :
    Enrolled ({ l with waiting := rest } : Lists ι δ) (r.insert i c) suspended := by
  have hn := h.sound.nodup
  have hall : l.all.Perm (i :: ({ l with waiting := rest } : Lists ι δ).all) := by
    rw [Lists.all, Lists.all, hw]
    exact List.perm_middle
  rw [hall.nodup_iff, List.nodup_cons] at hn
  refine h.replace (h.sound.pop hw) fun x => ?_
  rw [hall.mem_iff, List.mem_cons]
  constructor
  · exact fun hx => .inl ⟨.inr hx, by rintro rfl; exact hn.1 hx⟩
  · rintro (⟨rfl | hx, hne⟩ | ⟨-, hx⟩)
    · exact absurd rfl hne
    · exact hx
    · exact absurd hx hc

end Registered

end WaitQueue
