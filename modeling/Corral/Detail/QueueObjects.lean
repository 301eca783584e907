import Corral.Detail.Queue
import Corral.Lib.ObjectStorage

/-!
# `detail::Queue`: the objects

The operations of `corral/detail/Queue.h` once more, on storage that checks every access, counts the
objects that are constructed and destroyed, and lets a constructor throw.  The flag of a result says
whether the function returned; if it threw, the queue is what the exception leaves behind.

* `grow`, `pushBack`, `emplaceBack`, `append`: may throw;
* `popFront`, `popFrontTo`, `front`, `forEachItem`, `destroy`: may not;
* `grow_eq` to `destroy_eq`: as long as no constructor throws, no access is wrong and the operations
  are those of `RawQueue`; `grow_threw`, `constructBack_threw`, `appendFit_threw`: what is left when
  one does.

An object that is moved from is still an object: `moveRange()` is `uninitializedCopy` in either case.
-/

namespace Corral.QueueObjects

open ObjectStorage RawStorage RawQueue

variable {α : Type*}

/-- `first_range()`: the offset of the range and its length. -/
def firstSpan (q : RawQueue α) : ℕ × ℕ :=
  if q.size = 0 then (0, 0)
  else if q.head < q.tail then (q.head, q.tail - q.head)
  else (q.head, q.capacity - q.head)

/-- `second_range()`. -/
def secondSpan (q : RawQueue α) : ℕ × ℕ :=
  if q.size = 0 ∨ q.head < q.tail then (0, 0) else (0, q.tail)

def readSpan (q : RawQueue α) (span : ℕ × ℕ) : Except Fault (List α) :=
  readObjects q.buffer span.1 span.2

/-- `~Queue()`; `free()` does not look at the storage. -/
def destroy (e : Account) (q : RawQueue α) : Except Fault Account :=
  (destroyObjects e q.buffer (firstSpan q).1 (firstSpan q).2).bind fun r =>
    (destroyObjects r.1 r.2 (secondSpan q).1 (secondSpan q).2).map Prod.fst

def grow (e : Account) (q : RawQueue α) (newCapacity : ℕ) :
    Except Fault (Bool × Account × RawQueue α) :=
  let q' : RawQueue α := .new (max (max newCapacity 8) (q.capacity * 2))
  (readSpan q (firstSpan q)).bind fun xs =>
  (uninitializedCopy e q'.buffer q'.tail xs).bind fun r =>
    -- an exception destroys `q`, whose `size_` is still 0
    if r.1 = false then (destroy r.2.1 { q' with buffer := r.2.2 }).map fun e => (false, e, q)
    else (readSpan q (secondSpan q)).bind fun ys =>
      (uninitializedCopy r.2.1 r.2.2 (q'.tail + xs.length) ys).bind fun r' =>
        if r'.1 = false then
          (destroy r'.2.1 { q' with buffer := r'.2.2 }).map fun e => (false, e, q)
        -- the assignment destroys the old storage with its objects
        else (destroy r'.2.1 q).map fun e => (true, e,
          { q' with
            buffer := r'.2.2
            tail := q'.tail + xs.length + ys.length
            size := q.size })

/-- The part of `push_back()` after the capacity check. -/
def constructBack (e : Account) (q : RawQueue α) (x : α) :
    Except Fault (Bool × Account × RawQueue α) :=
  (construct e q.buffer q.tail x).map fun r =>
    if r.1 then (true, r.2.1,
      { q with
        buffer := r.2.2
        tail := q.wrap (q.tail + 1)
        size := q.size + 1 })
    else (false, r.2.1, { q with buffer := r.2.2 })

def pushBack (e : Account) (q : RawQueue α) (x : α) : Except Fault (Bool × Account × RawQueue α) :=
  (if q.size = q.capacity then grow e q 0 else .ok (true, e, q)).bind fun r =>
    if r.1 then constructBack r.2.1 r.2.2 x else .ok r

/-- `emplace_back()`, where the arguments make the object `x`. -/
def emplaceBack (e : Account) (q : RawQueue α) (x : α) :
    Except Fault (Bool × Account × RawQueue α) :=
  (if q.size = q.capacity then grow e q 0 else .ok (true, e, q)).bind fun r =>
    if r.1 then constructBack r.2.1 r.2.2 x else .ok r

/-- The part of `append()` after the capacity check. -/
def appendFit (e : Account) (q : RawQueue α) (xs : List α) :
    Except Fault (Bool × Account × RawQueue α) :=
  if q.tail + xs.length ≤ q.capacity then
    (uninitializedCopy e q.buffer q.tail xs).map fun r =>
      if r.1 then (true, r.2.1,
        { q with
          buffer := r.2.2
          tail := q.wrap (q.tail + xs.length)
          size := q.size + xs.length })
      else (false, r.2.1, { q with buffer := r.2.2 })
  else
    let k := q.capacity - q.tail
    (uninitializedCopy e q.buffer q.tail (xs.take k)).bind fun r =>
      if r.1 = false then .ok (false, r.2.1, { q with buffer := r.2.2 })
      else (uninitializedCopy r.2.1 r.2.2 0 (xs.drop k)).map fun r' =>
        if r'.1 then (true, r'.2.1,
          { q with
            buffer := r'.2.2
            tail := q.wrap (xs.drop k).length
            size := q.size + xs.length })
        -- the objects of the first chunk are not destroyed
        else (false, r'.2.1, { q with buffer := r'.2.2 })

def append (e : Account) (q : RawQueue α) (xs : List α) :
    Except Fault (Bool × Account × RawQueue α) :=
  (if q.capacity < q.size + xs.length then grow e q (q.size + xs.length)
    else .ok (true, e, q)).bind fun r =>
    if r.1 then appendFit r.2.1 r.2.2 xs else .ok r

def front (q : RawQueue α) : Except Fault α := readObject q.buffer q.head

def popFront (e : Account) (q : RawQueue α) : Except Fault (Account × RawQueue α) :=
  (destroyObjects e q.buffer q.head 1).map fun r => (r.1,
    { q with
      buffer := r.2
      head := q.wrap (q.head + 1)
      size := q.size - 1 })

/-- `pop_front_to()` after its assertion. -/
def popFrontTo (e : Account) (q : RawQueue α) (n : ℕ) :
    Except Fault (List α × Account × RawQueue α) :=
  let n₁ := min n (q.capacity - q.head)
  (readObjects q.buffer q.head n₁).bind fun out₁ =>
  (destroyObjects e q.buffer q.head n₁).bind fun r =>
    let q₁ : RawQueue α :=
      { q with
        buffer := r.2
        head := q.wrap (q.head + n₁)
        size := q.size - n₁ }
    let n₂ := min (n - n₁) q.tail
    if n₂ = 0 then .ok (out₁, r.1, q₁)
    else (readObjects q₁.buffer 0 n₂).bind fun out₂ =>
      (destroyObjects r.1 q₁.buffer 0 n₂).map fun r' => (out₁ ++ out₂, r'.1,
        { q₁ with
          buffer := r'.2
          head := n₂
          size := q₁.size - n₂ })

/-- `for_each_item()`: the objects that `f` is called on, and the queue with what it makes of them. -/
def forEachItem (q : RawQueue α) (f : α → α) : Except Fault (List α × RawQueue α) :=
  (visitObjects f q.buffer (firstSpan q).1 (firstSpan q).2).bind fun r =>
    (visitObjects f r.2 (secondSpan q).1 (secondSpan q).2).map fun r' =>
      (r.1 ++ r'.1, { q with buffer := r'.2 })

/-! ### The ranges -/

/-- The objects of the two ranges in the storage; those of the first one may be replaced. -/
theorem layout {q : RawQueue α} {xs : List α} (h : Rep q xs) :
    ∃ as bs : List (Option α), q.buffer = as ++ q.firstRange.map some ++ bs ∧
      firstSpan q = (as.length, q.firstRange.length) ∧ secondSpan q = (0, q.secondRange.length) ∧
      ∀ zs : List (Option α), zs.length = q.firstRange.length →
        ∃ ds, as ++ zs ++ bs = q.secondRange.map some ++ ds := by
  cases h with
  | straight a b xs hb =>
    rcases xs with _ | ⟨x, xs⟩
    · refine ⟨[], List.replicate a none ++ List.replicate b none, ?_, ?_, ?_, ?_⟩
      · simp [firstRange]
      · simp [firstSpan, firstRange]
      · simp [secondSpan, secondRange]
      · exact fun zs _ => ⟨_, by simp [secondRange]; rfl⟩
    · have hr := readRange_split (List.replicate a none) (List.replicate b none) (x :: xs)
        (i := a) (j := a + (x :: xs).length) (by simp) (by simp)
      have hfirst : (⟨List.replicate a none ++ (x :: xs).map some ++ List.replicate b none, a,
          a + (x :: xs).length, (x :: xs).length⟩ : RawQueue α).firstRange = x :: xs := by
        simp only [firstRange]
        rw [if_neg (by simp), if_pos (by simp), hr]
      refine ⟨List.replicate a none, List.replicate b none, ?_, ?_, ?_, ?_⟩
      · rw [hfirst]
      · rw [hfirst]
        simp [firstSpan]
      · simp [secondSpan, secondRange]
      · exact fun zs _ => ⟨_, by simp [secondRange]; rfl⟩
  | wrapped ys g xs hx =>
    have hpos : 0 < xs.length := List.length_pos_iff.2 hx
    have h₁ := readRange_split (ys.map some ++ List.replicate g none) [] xs
      (i := ys.length + g) (j := ys.length + g + xs.length) (by simp) (by simp)
    have h₂ := readRange_split [] (List.replicate g none ++ xs.map some) ys
      (i := 0) (j := ys.length) rfl (by simp)
    simp only [List.append_nil, List.nil_append, ← List.append_assoc] at h₁ h₂
    have hfirst : (⟨ys.map some ++ List.replicate g none ++ xs.map some, ys.length + g, ys.length,
        xs.length + ys.length⟩ : RawQueue α).firstRange = xs := by
      simp only [firstRange, capacity, List.length_append, List.length_map, List.length_replicate]
      rw [if_neg (by omega), if_neg (by omega), h₁]
    have hsecond : (⟨ys.map some ++ List.replicate g none ++ xs.map some, ys.length + g, ys.length,
        xs.length + ys.length⟩ : RawQueue α).secondRange = ys := by
      simp only [secondRange]
      rw [if_neg (by omega), h₂]
    refine ⟨ys.map some ++ List.replicate g none, [], ?_, ?_, ?_, ?_⟩
    · rw [hfirst, List.append_nil]
    · simp only [firstSpan, hfirst, capacity, List.length_append, List.length_map,
        List.length_replicate]
      rw [if_neg (by omega), if_neg (by omega)]
      congr 1
      omega
    · simp only [secondSpan, hsecond]
      rw [if_neg (by omega)]
    · exact fun zs _ => ⟨List.replicate g none ++ zs, by rw [hsecond]; simp⟩

theorem size_eq_ranges {q : RawQueue α} {xs : List α} (h : Rep q xs) :
    q.size = q.firstRange.length + q.secondRange.length := by
  rw [h.size_eq, ← h.contents_eq, contents, List.length_append]

theorem readSpan_first {q : RawQueue α} {xs : List α} (h : Rep q xs) :
    readSpan q (firstSpan q) = .ok q.firstRange := by
  obtain ⟨as, bs, hb, hfirst, -, -⟩ := layout h
  rw [readSpan, hfirst, hb]
  exact readObjects_split as bs _ rfl rfl

theorem readSpan_second {q : RawQueue α} {xs : List α} (h : Rep q xs) :
    readSpan q (secondSpan q) = .ok q.secondRange := by
  obtain ⟨as, bs, hb, -, hsecond, hds⟩ := layout h
  obtain ⟨ds, hd⟩ := hds (q.firstRange.map some) (by simp)
  rw [readSpan, hsecond, hb, hd]
  exact readObjects_split [] ds _ rfl rfl

/-- The destructor destroys every object of the queue. -/
theorem destroy_eq {q : RawQueue α} {xs : List α} (h : Rep q xs) (e : Account) :
    destroy e q = .ok (e.destroy q.size) := by
  obtain ⟨as, bs, hb, hfirst, hsecond, hds⟩ := layout h
  obtain ⟨ds, hd⟩ := hds (List.replicate q.firstRange.length none) (by simp)
  have h₁ := destroyObjects_split e as bs q.firstRange (i := as.length) rfl rfl
  have h₂ := destroyObjects_split (e.destroy q.firstRange.length) [] ds q.secondRange (i := 0) rfl rfl
  rw [List.nil_append] at h₂
  rw [destroy, hfirst, hsecond, hb, h₁]
  simp only [Except.bind, hd, h₂, Except.map, Account.destroy_destroy, size_eq_ranges h]

/-- The destructor goes by `size_`. -/
theorem destroy_of_size_eq_zero {q : RawQueue α} (h : q.size = 0) (e : Account) :
    destroy e q = .ok e := by
  simp [destroy, firstSpan, secondSpan, h, destroyObjects, Except.bind, Except.map]

/-- The queue with every object replaced. -/
theorem rep_map {q : RawQueue α} {xs : List α} (h : Rep q xs) (f : α → α) :
    Rep { q with buffer := q.buffer.map (Option.map f) } (xs.map f) := by
  cases h with
  | straight a b xs hb =>
    have hrep := Rep.straight a b (xs.map f) (by simpa using hb)
    simpa [Function.comp_def] using hrep
  | wrapped ys g xs hx =>
    have hrep := Rep.wrapped (ys.map f) g (xs.map f) (by simpa using hx)
    simpa [Function.comp_def] using hrep

theorem forEachItem_eq {q : RawQueue α} {xs : List α} (h : Rep q xs) (f : α → α) :
    forEachItem q f = .ok (xs, { q with buffer := q.buffer.map (Option.map f) }) := by
  cases h with
  | straight a b xs hb =>
    have hv := visitObjects_split f (List.replicate a none) (List.replicate b none) xs (i := a)
      (n := xs.length) (by simp) rfl
    have hspan : firstSpan (⟨List.replicate a none ++ xs.map some ++ List.replicate b none, a,
        a + xs.length, xs.length⟩ : RawQueue α) = if xs = [] then (0, 0) else (a, xs.length) := by
      rcases xs with _ | ⟨x, xs⟩ <;> simp [firstSpan]
    have hsecond : secondSpan (⟨List.replicate a none ++ xs.map some ++ List.replicate b none, a,
        a + xs.length, xs.length⟩ : RawQueue α) = (0, 0) := by
      rcases xs with _ | ⟨x, xs⟩ <;> simp [secondSpan]
    rw [forEachItem, hspan, hsecond]
    rcases xs with _ | ⟨x, xs⟩
    · simp [visitObjects, Except.bind, Except.map]
    · rw [if_neg (by simp)]
      simp only [hv, Except.bind, visitObjects, Except.map]
      simp [Function.comp_def]
  | wrapped ys g xs hx =>
    have hpos : 0 < xs.length := List.length_pos_iff.2 hx
    have h₁ := visitObjects_split f (ys.map some ++ List.replicate g none) [] xs
      (i := ys.length + g) (n := xs.length) (by simp) rfl
    have h₂ := visitObjects_split f [] (List.replicate g none ++ (xs.map f).map some) ys (i := 0)
      (n := ys.length) rfl rfl
    have hfirst : firstSpan (⟨ys.map some ++ List.replicate g none ++ xs.map some, ys.length + g,
        ys.length, xs.length + ys.length⟩ : RawQueue α) = (ys.length + g, xs.length) := by
      simp only [firstSpan, capacity, List.length_append, List.length_map, List.length_replicate]
      rw [if_neg (by omega), if_neg (by omega)]
      congr 1
      omega
    have hsecond : secondSpan (⟨ys.map some ++ List.replicate g none ++ xs.map some, ys.length + g,
        ys.length, xs.length + ys.length⟩ : RawQueue α) = (0, ys.length) := by
      simp only [secondSpan]
      rw [if_neg (by omega)]
    simp only [List.append_nil, List.nil_append, ← List.append_assoc] at h₁ h₂
    rw [forEachItem, hfirst, hsecond]
    simp only [h₁, Except.bind, h₂, Except.map]
    simp [Function.comp_def]

/-! ### Growing -/

/-- The new storage, as the two ranges are copied into it. -/
theorem new_split (c : ℕ) {m n : ℕ} (h : m + n < c) :
    (RawQueue.new c : RawQueue α).buffer
      = [] ++ List.replicate m none ++ (List.replicate n none ++ List.replicate (c - m - n) none) := by
  rw [RawQueue.new, List.nil_append, ← List.replicate_add, ← List.replicate_add,
    show m + (n + (c - m - n)) = c by omega]

theorem grow_eq {q : RawQueue α} {xs : List α} (h : Rep q xs) {e : Account} {n : ℕ}
    (hn : q.size < max (max n 8) (q.capacity * 2)) (he : e.Allows q.size) :
    grow e q n = .ok (true, (e.construct q.size).destroy q.size, q.grow n) := by
  have hsize := size_eq_ranges h
  rw [hsize] at hn
  rw [hsize] at he
  have hnew := new_split (α := α) _ hn
  generalize max (max n 8) (q.capacity * 2) - q.firstRange.length - q.secondRange.length = r at hnew
  have h₁ := uninitializedCopy_split [] (List.replicate q.secondRange.length none ++
    List.replicate r none) (i := 0) q.firstRange rfl rfl (e := e) fun k hk => by have := he k hk; omega
  have h₂ := uninitializedCopy_split (q.firstRange.map some) (List.replicate r none)
    (i := 0 + q.firstRange.length) q.secondRange (by simp) rfl he.construct
  have hp₁ := placeRange_split [] (List.replicate q.firstRange.length none)
    (List.replicate q.secondRange.length none ++ List.replicate r none) (i := 0) q.firstRange rfl
    (by simp)
  have hp₂ := placeRange_split (q.firstRange.map some) (List.replicate q.secondRange.length none)
    (List.replicate r none) (i := 0 + q.firstRange.length) q.secondRange (by simp) (by simp)
  have hd := destroy_eq h (e.construct (q.firstRange.length + q.secondRange.length))
  simp only [List.nil_append, ← List.append_assoc] at h₁ h₂ hp₁ hp₂ hnew
  unfold grow RawQueue.grow
  rw [readSpan_first h, readSpan_second h]
  simp only [Except.bind, hnew, show (RawQueue.new _ : RawQueue α).tail = 0 from rfl, h₁, h₂,
    Bool.true_eq_false, if_false, hd, Except.map, hp₁, hp₂, Account.construct_construct, hsize]

/-- A constructor throws while the objects of the first range are copied, or those of the second one:
the copies of the first range are lost with the new storage. -/
theorem grow_threw {q : RawQueue α} {xs : List α} (h : Rep q xs) {e : Account} {n k : ℕ}
    (hn : q.size < max (max n 8) (q.capacity * 2)) (he : e.copies = some k) (hk : k < q.size) :
    grow e q n = .ok (false, (e.construct k).destroy
      (if k < q.firstRange.length then k else k - q.firstRange.length), q) := by
  have hsize := size_eq_ranges h
  rw [hsize] at hn hk
  have hnew := new_split (α := α) _ hn
  generalize max (max n 8) (q.capacity * 2) - q.firstRange.length - q.secondRange.length = r at hnew
  unfold grow
  rw [readSpan_first h, readSpan_second h]
  split_ifs with hfirst
  · have h₁ := uninitializedCopy_split_threw [] (List.replicate q.secondRange.length none ++
      List.replicate r none) (i := 0) q.firstRange rfl rfl he hfirst
    simp only [List.nil_append, ← List.append_assoc] at h₁ hnew
    simp only [Except.bind, hnew, show (RawQueue.new _ : RawQueue α).tail = 0 from rfl, h₁, if_true]
    rw [destroy_of_size_eq_zero rfl]
    rfl
  · have hall : e.Allows q.firstRange.length := fun j hj => by rw [he] at hj; cases hj; omega
    have hleft : (e.construct q.firstRange.length).copies = some (k - q.firstRange.length) := by
      simp [Account.construct, he]
    have h₁ := uninitializedCopy_split [] (List.replicate q.secondRange.length none ++
      List.replicate r none) (i := 0) q.firstRange rfl rfl hall
    have h₂ := uninitializedCopy_split_threw (q.firstRange.map some) (List.replicate r none)
      (i := 0 + q.firstRange.length) q.secondRange (by simp) rfl hleft (by omega)
    simp only [List.nil_append, ← List.append_assoc] at h₁ h₂ hnew
    simp only [Except.bind, hnew, show (RawQueue.new _ : RawQueue α).tail = 0 from rfl, h₁, h₂,
      Bool.true_eq_false, if_false, if_true]
    rw [destroy_of_size_eq_zero rfl, Account.construct_construct,
      show q.firstRange.length + (k - q.firstRange.length) = k by omega]
    rfl

/-! ### Adding objects -/

/-- The slots that `append()` fills when the free space is not fragmented. -/
theorem vacant_tail {q : RawQueue α} {xs : List α} (h : Rep q xs) {n : ℕ}
    (hq : q.size + n ≤ q.capacity) (hn : q.tail + n ≤ q.capacity) :
    ∃ as bs, q.buffer = as ++ List.replicate n none ++ bs ∧ q.tail = as.length := by
  cases h with
  | straight a b xs hb =>
    simp only [capacity, List.length_append, List.length_replicate, List.length_map] at hn
    obtain ⟨c, rfl⟩ := Nat.exists_eq_add_of_le (show n ≤ b by omega)
    refine ⟨List.replicate a none ++ xs.map some, List.replicate c none, ?_, by simp⟩
    rw [List.replicate_add, List.append_assoc]
    simp only [List.append_assoc]
  | wrapped ys g xs hx =>
    simp only [capacity, List.length_append, List.length_replicate, List.length_map] at hq
    obtain ⟨c, rfl⟩ := Nat.exists_eq_add_of_le (show n ≤ g by omega)
    refine ⟨ys.map some, List.replicate c none ++ xs.map some, ?_, by simp⟩
    rw [List.replicate_add]
    simp only [List.append_assoc]

/-- The slots that it fills otherwise: those at the end of the storage and the others at its
beginning. -/
theorem vacant_ends {q : RawQueue α} {xs : List α} (h : Rep q xs) {n : ℕ}
    (hq : q.size + n ≤ q.capacity) (hn : q.capacity < q.tail + n) :
    ∃ cs k m, q.buffer = List.replicate m none ++ cs ++ List.replicate k none ∧
      k = q.capacity - q.tail ∧ k + m = n ∧ q.tail = m + cs.length := by
  cases h with
  | straight a b xs hb =>
    simp only [capacity, List.length_append, List.length_replicate, List.length_map] at hq hn ⊢
    obtain ⟨m, rfl⟩ := Nat.exists_eq_add_of_le (show b ≤ n by omega)
    obtain ⟨c, rfl⟩ := Nat.exists_eq_add_of_le (show m ≤ a by omega)
    refine ⟨List.replicate c none ++ xs.map some, b, m, ?_, by omega, rfl, by simp [Nat.add_assoc]⟩
    rw [List.replicate_add]
    simp only [List.append_assoc]
  | wrapped ys g xs hx =>
    simp only [capacity, List.length_append, List.length_replicate, List.length_map] at hq hn
    omega

theorem constructBack_eq {q : RawQueue α} {xs : List α} (h : Rep q xs) {e : Account} (x : α)
    (hq : q.size < q.capacity) (he : e.Allows 1) :
    constructBack e q x = .ok (true, e.construct 1, q.construct x) := by
  have hn : q.tail + 1 ≤ q.capacity := by rcases h.tail_lt with ht | ht <;> omega
  obtain ⟨as, bs, hb, ht⟩ := vacant_tail h hq hn
  have hc := construct_split as bs x ht he
  have hset := set_split as bs (m := none) (v := some x) ht
  rw [List.replicate_one, List.append_assoc, List.singleton_append] at hb
  simp only [constructBack, RawQueue.construct, hb, hc, hset, Except.map, if_true]

theorem constructBack_threw {q : RawQueue α} {xs : List α} (h : Rep q xs) {e : Account} (x : α)
    (hq : q.size < q.capacity) (he : e.copies = some 0) :
    constructBack e q x = .ok (false, e, q) := by
  have hn : q.tail + 1 ≤ q.capacity := by rcases h.tail_lt with ht | ht <;> omega
  obtain ⟨as, bs, hb, ht⟩ := vacant_tail h hq hn
  have hc := construct_split_threw as bs x ht he
  rw [List.replicate_one, List.append_assoc, List.singleton_append] at hb
  simp only [constructBack, hb, hc, Except.map, Bool.false_eq_true, if_false]
  rw [← hb]

theorem appendFit_eq {q : RawQueue α} {xs : List α} (h : Rep q xs) {e : Account} (zs : List α)
    (hq : q.size + zs.length ≤ q.capacity) (he : e.Allows zs.length) :
    appendFit e q zs = .ok (true, e.construct zs.length, q.appendFit zs) := by
  unfold appendFit RawQueue.appendFit
  split_ifs with hfit
  · obtain ⟨as, bs, hb, ht⟩ := vacant_tail h hq hfit
    have hc := uninitializedCopy_split as bs zs ht rfl he
    have hp := placeRange_split as (List.replicate zs.length none) bs zs ht (by simp)
    simp only [hb, hc, hp, Except.map, if_true]
  · obtain ⟨cs, k, m, hb, hk, hkm, ht⟩ := vacant_ends h hq (by omega)
    have hus : (zs.take k).length = k := by simp; omega
    have hvs : (zs.drop k).length = m := by simp; omega
    have htail : q.tail = (List.replicate m (none : Option α) ++ cs).length := by simp [ht]
    rw [← hkm] at he
    have h₁ := uninitializedCopy_split (List.replicate m none ++ cs) [] (zs.take k) htail hus.symm
      (e := e) fun j hj => by have := he j hj; omega
    have h₂ := uninitializedCopy_split [] (cs ++ (zs.take k).map some) (zs.drop k) (i := 0) rfl
      hvs.symm he.construct
    have hp₁ := placeRange_split (List.replicate m none ++ cs) (List.replicate k none) [] (zs.take k)
      htail (by simp [hus])
    have hp₂ := placeRange_split [] (List.replicate m none) (cs ++ (zs.take k).map some) (zs.drop k)
      (i := 0) rfl (by simp [hvs])
    simp only [List.append_nil, List.nil_append, ← List.append_assoc] at h₁ h₂ hp₁ hp₂
    simp only [hb, ← hk, h₁, Except.bind, Bool.true_eq_false, if_false, h₂, hp₁, hp₂, Except.map,
      if_true, Account.construct_construct, hkm]

/-- What the slots from `tail_` on hold does not matter to a queue in one piece. -/
theorem contents_of_take {q : RawQueue α} {b : List (Option α)}
    (hb : b.take q.tail = q.buffer.take q.tail) (hq : q.size = 0 ∨ q.head < q.tail) :
    ({ q with buffer := b } : RawQueue α).contents = q.contents := by
  rcases hq with hq | hq
  · simp [contents, firstRange, secondRange, hq]
  · simp only [contents, firstRange, secondRange, hq, if_true, or_true, readRange, ← List.drop_take, hb]

/-- A queue is in one piece if objects are appended to it in two. -/
theorem not_wrapped {q : RawQueue α} {xs : List α} (h : Rep q xs) {n : ℕ}
    (hq : q.size + n ≤ q.capacity) (hn : q.capacity < q.tail + n) : q.size = 0 ∨ q.head < q.tail := by
  cases h with
  | straight a b xs hb => rcases xs with _ | ⟨x, xs⟩ <;> simp
  | wrapped ys g xs hx =>
    simp only [capacity, List.length_append, List.length_replicate, List.length_map] at hq hn
    omega

/-- A constructor throws: the objects that have been put into the first of two chunks stay there. -/
theorem appendFit_threw {q : RawQueue α} {xs : List α} (h : Rep q xs) {e : Account} {k : ℕ}
    (zs : List α) (hq : q.size + zs.length ≤ q.capacity) (he : e.copies = some k)
    (hk : k < zs.length) :
    ∃ b, appendFit e q zs = .ok (false, (e.construct k).destroy
      (if q.tail + zs.length ≤ q.capacity ∨ k < q.capacity - q.tail then k
        else k - (q.capacity - q.tail)), { q with buffer := b }) ∧
      ({ q with buffer := b } : RawQueue α).contents = q.contents := by
  unfold appendFit
  by_cases hfit : q.tail + zs.length ≤ q.capacity
  · obtain ⟨as, bs, hb, ht⟩ := vacant_tail h hq hfit
    have hc := uninitializedCopy_split_threw as bs zs ht rfl he hk
    refine ⟨q.buffer, ?_, rfl⟩
    rw [if_pos hfit, if_pos (.inl hfit)]
    simp only [hb, hc, Except.map, Bool.false_eq_true, if_false]
  · obtain ⟨cs, k', m, hb, hk', hkm, ht⟩ := vacant_ends h hq (by omega)
    have hus : (zs.take k').length = k' := by simp; omega
    have hvs : (zs.drop k').length = m := by simp; omega
    have htail : q.tail = (List.replicate m (none : Option α) ++ cs).length := by simp [ht]
    rw [if_neg hfit, ← hk']
    rcases Nat.lt_or_ge k k' with hlt | hge
    · have h₁ := uninitializedCopy_split_threw (List.replicate m none ++ cs) [] (zs.take k') htail
        hus.symm he hlt
      simp only [List.append_nil] at h₁
      refine ⟨q.buffer, ?_, rfl⟩
      rw [if_pos (.inr hlt)]
      simp only [hb, h₁, Except.bind, if_true]
    · have hall : e.Allows k' := fun j hj => by rw [he] at hj; cases hj; omega
      have hleft : (e.construct k').copies = some (k - k') := by simp [Account.construct, he]
      have h₁ := uninitializedCopy_split (List.replicate m none ++ cs) [] (zs.take k') htail
        hus.symm hall
      have h₂ := uninitializedCopy_split_threw [] (cs ++ (zs.take k').map some) (zs.drop k') (i := 0)
        rfl hvs.symm hleft (by omega)
      simp only [List.append_nil, List.nil_append, ← List.append_assoc] at h₁ h₂
      refine ⟨List.replicate m none ++ cs ++ (zs.take k').map some, ?_, ?_⟩
      · rw [if_neg (by omega)]
        simp only [hb, h₁, Except.bind, Bool.true_eq_false, if_false, h₂, Except.map,
          Bool.false_eq_true, Account.construct_construct]
        rw [show k' + (k - k') = k by omega]
      · refine contents_of_take ?_ (not_wrapped h hq (by omega))
        rw [hb, htail, List.take_left, List.take_left]

/-- The objects that `grow()` copies, if the queue has to grow. -/
def relocated (q : RawQueue α) (full : Prop) [Decidable full] : ℕ := if full then q.size else 0

theorem pushBack_eq {q : RawQueue α} {xs : List α} (h : Rep q xs) {e : Account} (x : α)
    (he : e.Allows (relocated q (q.size = q.capacity) + 1)) :
    pushBack e q x = .ok (true, ((e.construct (relocated q (q.size = q.capacity))).destroy
      (relocated q (q.size = q.capacity))).construct 1, q.pushBack x) := by
  have hle := h.size_le
  unfold pushBack RawQueue.pushBack relocated at *
  split_ifs at he ⊢ with hfull
  · have hlt : q.size < max (max 0 8) (q.capacity * 2) := by omega
    have hc := constructBack_eq (h.grow hlt) x (e := (e.construct q.size).destroy q.size)
      (by rw [(h.grow hlt).size_eq, ← h.size_eq, grow_capacity]; exact hlt) he.construct
    rw [grow_eq h hlt fun k hk => by have := he k hk; omega]
    simpa only [Except.bind, if_true] using hc
  · have hc := constructBack_eq h x (by omega) (e := e) he
    simpa [Except.bind] using hc

theorem emplaceBack_eq_pushBack (e : Account) (q : RawQueue α) (x : α) :
    emplaceBack e q x = pushBack e q x := rfl

theorem append_eq {q : RawQueue α} {xs : List α} (h : Rep q xs) {e : Account} (zs : List α)
    (he : e.Allows (relocated q (q.capacity < q.size + zs.length) + zs.length)) :
    append e q zs = .ok (true, ((e.construct (relocated q (q.capacity < q.size + zs.length))).destroy
      (relocated q (q.capacity < q.size + zs.length))).construct zs.length, q.append zs) := by
  have hle := h.size_le
  unfold append RawQueue.append relocated at *
  split_ifs at he ⊢ with hfull
  · have hlt : q.size < max (max (q.size + zs.length) 8) (q.capacity * 2) := by omega
    have hc := appendFit_eq (h.grow hlt) zs (e := (e.construct q.size).destroy q.size)
      (by rw [(h.grow hlt).size_eq, ← h.size_eq, grow_capacity]; omega) he.construct
    rw [grow_eq h hlt fun k hk => by have := he k hk; omega]
    simpa only [Except.bind, if_true] using hc
  · have hc := appendFit_eq h zs (by omega) (e := e) (by simpa using he)
    simpa [Except.bind] using hc

/-! ### Taking objects -/

/-- The oldest object. -/
theorem split_front {q : RawQueue α} {x : α} {xs : List α} (h : Rep q (x :: xs)) :
    ∃ as bs, q.buffer = as ++ some x :: bs ∧ q.head = as.length := by
  generalize hys : x :: xs = ys at h
  cases h with
  | straight a b zs hb =>
    subst hys
    exact ⟨List.replicate a none, xs.map some ++ List.replicate b none, by simp, by simp⟩
  | wrapped us g zs hx =>
    obtain ⟨z, zs, rfl⟩ := List.exists_cons_of_ne_nil hx
    simp only [List.cons_append, List.cons.injEq] at hys
    exact ⟨us.map some ++ List.replicate g none, zs.map some, by simp [hys.1], by simp⟩

theorem front_eq {q : RawQueue α} {x : α} {xs : List α} (h : Rep q (x :: xs)) :
    front q = .ok x := by
  obtain ⟨as, bs, hb, hh⟩ := split_front h
  rw [front, hb, readObject_split as bs x hh]

theorem popFront_eq {q : RawQueue α} {x : α} {xs : List α} (h : Rep q (x :: xs)) (e : Account) :
    popFront e q = .ok (e.destroy 1, q.popFront) := by
  obtain ⟨as, bs, hb, hh⟩ := split_front h
  have hd := destroyObjects_split e as bs [x] (n := 1) hh rfl
  have hset := set_split as bs (m := some x) (v := none) hh
  simp only [List.map_cons, List.map_nil, List.append_assoc, List.singleton_append,
    List.replicate_one] at hd
  simp only [popFront, RawQueue.popFront, hb, hd, hset, Except.map]

/-- Reading and destroying a range of objects. -/
theorem take_range (e : Account) (as bs : List (Option α)) (xs : List α) {i n : ℕ}
    (hi : i = as.length) (hn : n = xs.length) :
    readObjects (as ++ xs.map some ++ bs) i n = .ok (readRange (as ++ xs.map some ++ bs) i (i + n)) ∧
    destroyObjects e (as ++ xs.map some ++ bs) i n
      = .ok (e.destroy n, destroyRange (as ++ xs.map some ++ bs) i n) := by
  rw [readRange_split as bs xs hi (by omega), destroyRange_split as (xs.map some) bs hi (by simp [hn])]
  exact ⟨readObjects_split as bs xs hi hn, destroyObjects_split e as bs xs hi hn⟩

theorem popFrontTo_eq {q : RawQueue α} {xs : List α} (h : Rep q xs) (e : Account) {n : ℕ}
    (hn : n ≤ q.size) :
    popFrontTo e q n = .ok ((q.popFrontTo n).1, e.destroy n, (q.popFrontTo n).2) := by
  rw [h.size_eq] at hn
  cases h with
  | straight a b xs hb =>
    obtain ⟨us, vs, rfl, rfl⟩ : ∃ us vs, xs = us ++ vs ∧ us.length = n :=
      ⟨xs.take n, xs.drop n, (List.take_append_drop n xs).symm, by simp [hn]⟩
    obtain ⟨hr, hd⟩ := take_range e (List.replicate a none) (vs.map some ++ List.replicate b none) us
      (i := a) (n := us.length) (by simp) rfl
    simp only [popFrontTo, RawQueue.popFrontTo, wrap, capacity, List.length_append,
      List.length_replicate, List.length_map, List.map_append, List.append_assoc] at hr hd ⊢
    rw [show min us.length (a + (us.length + (vs.length + b)) - a) = us.length by omega,
      Nat.sub_self, Nat.zero_min, if_pos rfl]
    simp only [hr, hd, Except.bind, if_true]
  | wrapped ys g xs hx =>
    rw [List.length_append] at hn
    simp only [popFrontTo, RawQueue.popFrontTo, wrap, capacity, List.length_append,
      List.length_replicate, List.length_map]
    rw [Nat.add_sub_cancel_left]
    obtain ⟨us, vs, rfl, hus⟩ : ∃ us vs, xs = us ++ vs ∧ us.length = min n xs.length :=
      ⟨xs.take (min n xs.length), xs.drop (min n xs.length), (List.take_append_drop _ xs).symm,
        by simp⟩
    obtain ⟨ws, zs, rfl, hws⟩ : ∃ ws zs, ys = ws ++ zs ∧
        ws.length = min (n - min n (us ++ vs).length) ys.length :=
      ⟨ys.take (min (n - min n (us ++ vs).length) ys.length),
        ys.drop (min (n - min n (us ++ vs).length) ys.length), (List.take_append_drop _ ys).symm,
        by simp⟩
    obtain ⟨hr₁, hd₁⟩ := take_range e ((ws ++ zs).map some ++ List.replicate g none) (vs.map some) us
      (i := (ws ++ zs).length + g) (n := us.length) (by simp [Nat.add_assoc]) rfl
    have hb₁ := destroyRange_split ((ws ++ zs).map some ++ List.replicate g none) (us.map some)
      (vs.map some) (i := (ws ++ zs).length + g) (n := us.length)
      (by simp [Nat.add_assoc]) (by simp)
    obtain ⟨hr₂, hd₂⟩ := take_range (e.destroy us.length) [] (zs.map some ++ List.replicate g none ++
      List.replicate us.length none ++ vs.map some) ws (i := 0) (n := ws.length) rfl rfl
    simp only [List.map_append, List.append_assoc, List.nil_append, Nat.zero_add] at *
    rw [← hus] at hws ⊢
    rw [← hws]
    simp only [List.length_append] at *
    simp only [hr₁, hd₁, Except.bind]
    by_cases hzero : ws.length = 0
    · have hn' : e.destroy us.length = e.destroy n := by rw [show us.length = n by omega]
      simp only [hzero, if_true, hn']
    · have hn' : e.destroy (us.length + ws.length) = e.destroy n := by
        rw [show us.length + ws.length = n by omega]
      simp only [hzero, if_false, hb₁, hr₂, hd₂, Except.map, Account.destroy_destroy, hn']

end Corral.QueueObjects
