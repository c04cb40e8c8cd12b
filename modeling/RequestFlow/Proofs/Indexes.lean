import Mathlib
import RequestFlow.Buffer.BestFit

/-!
# The two indexes of a pool

A pool has its buffers in two lists and a total of their sizes, and each call changes the three one
after the other.  `Indexed` says that they agree, also in the middle of a call; between calls the
total is within the limit too, which is `Tidy`.  `Trims` is the loop that frees the oldest buffers,
one turn at a time, with what each turn relies on.

    a lease leaves a tidy pool tidy                                       (Tidy.lease)
    so does a release, of any buffer that the pool does not have          (Tidy.release)
    trimming never runs out of buffers                                    (Indexed.trims)
-/

namespace RequestFlow.BestFit

/-- The two indexes have the same buffers, each once, and the total is the sum of their sizes.  The
one by size is sorted, with the buffers of one size in the order of their release. -/
structure Indexed (p : BestFit) : Prop where
  same : p.bySize.Perm p.byRelease
  distinct : (p.byRelease.map Buffer.id).Nodup
  sorted : p.bySize.Pairwise fun a b => a.capacity ≤ b.capacity
  inTurn : ∀ n, p.bySize.filter (·.capacity == n) = p.byRelease.filter (·.capacity == n)
  total : p.cachedBytes = (p.byRelease.map Buffer.capacity).sum

structure Tidy (p : BestFit) : Prop extends Indexed p where
  within : p.cachedBytes ≤ p.limit

/-- Trimming a pool frees these buffers, in order, and ends with the last pool.  A turn needs an
oldest buffer, which has to be in the other index too, and no larger than the total. -/
inductive Trims : BestFit → List Nat → BestFit → Prop
  | fits {p : BestFit} (h : p.cachedBytes ≤ p.limit) : Trims p [] p
  | evict {p q : BestFit} {b : Buffer} {rest : List Buffer} {gone : List Nat}
    (excess : p.limit < p.cachedBytes) (oldest : p.byRelease = b :: rest) (indexed : b ∈ p.bySize)
    (counted : b.capacity ≤ p.cachedBytes) (next : Trims ((p.takeOut b).free b) gone q) :
    Trims p (b.id :: gone) q

/-! ## Lists of buffers -/

theorem without_eq_filter {l : List Buffer} (h : (l.map Buffer.id).Nodup) (id : Nat) :
    without id l = l.filter (·.id != id) := by
  induction l with
  | nil => rfl
  | cons x l ih =>
    rw [List.map_cons, List.nodup_cons] at h
    by_cases hx : x.id = id
    · have rest : ∀ y ∈ l, y.id ≠ id := by
        intro y hy hyx
        exact h.1 (by rw [hx, ← hyx]; exact List.mem_map_of_mem hy)
      have kept : l.filter (·.id != id) = l := List.filter_eq_self.2 (by simpa using rest)
      simp [without, hx, kept]
    · have := ih h.2
      simp only [without] at this ⊢
      simp [hx, this]

/-- Taking a buffer out leaves the others, in their order. -/
theorem without_split {l : List Buffer} {b : Buffer} (h : (l.map Buffer.id).Nodup) (hb : b ∈ l) :
    ∃ before after, l = before ++ b :: after ∧ without b.id l = before ++ after := by
  obtain ⟨x, before, after, -, hx, rfl, erased⟩ :=
    List.exists_of_eraseP (p := (·.id == b.id)) hb (by simp)
  obtain rfl : x = b := by
    have hx : x.id = b.id := by simpa using hx
    exact List.inj_on_of_nodup_map h (by simp) hb hx
  exact ⟨before, after, rfl, erased⟩

theorem cons_without_perm {l : List Buffer} {b : Buffer} (h : (l.map Buffer.id).Nodup) (hb : b ∈ l) :
    (b :: without b.id l).Perm l := by
  obtain ⟨before, after, split, left⟩ := without_split h hb
  rw [left, split]
  exact List.perm_middle.symm

theorem takeOut_oldest {p : BestFit} {b : Buffer} {rest : List Buffer} (h : p.byRelease = b :: rest) :
    (p.takeOut b).byRelease = rest := by
  show without b.id p.byRelease = rest
  simp [h, without]

theorem insertBySize_perm (b : Buffer) (l : List Buffer) : (insertBySize b l).Perm (b :: l) := by
  induction l with
  | nil => exact .refl _
  | cons x l ih =>
    unfold insertBySize
    split
    · exact .refl _
    · exact (ih.cons x).trans (.swap b x l)

theorem insertBySize_sorted {b : Buffer} {l : List Buffer}
    (h : l.Pairwise fun a b => a.capacity ≤ b.capacity) :
    (insertBySize b l).Pairwise fun a b => a.capacity ≤ b.capacity := by
  induction l with
  | nil => exact List.pairwise_singleton _ _
  | cons x l ih =>
    obtain ⟨least, sorted⟩ := List.pairwise_cons.1 h
    unfold insertBySize
    split
    · next smaller =>
      refine List.pairwise_cons.2 ⟨?_, h⟩
      intro y hy
      rcases List.mem_cons.1 hy with rfl | hy
      · omega
      · have := least y hy
        omega
    · next larger =>
      refine List.pairwise_cons.2 ⟨?_, ih sorted⟩
      intro y hy
      rcases List.mem_cons.1 ((insertBySize_perm b l).mem_iff.1 hy) with rfl | hy
      · omega
      · exact least y hy

/-- A buffer comes behind those of its own size. -/
theorem filter_insertBySize {b : Buffer} {l : List Buffer}
    (h : l.Pairwise fun a b => a.capacity ≤ b.capacity) (n : Nat) :
    (insertBySize b l).filter (·.capacity == n) =
      l.filter (·.capacity == n) ++ [b].filter (·.capacity == n) := by
  induction l with
  | nil => rfl
  | cons x l ih =>
    obtain ⟨least, sorted⟩ := List.pairwise_cons.1 h
    unfold insertBySize
    split
    · next smaller =>
      by_cases hb : b.capacity = n
      · have none : (x :: l).filter (·.capacity == n) = [] := by
          rw [List.filter_eq_nil_iff]
          intro y hy
          have : x.capacity ≤ y.capacity := by
            rcases List.mem_cons.1 hy with rfl | hy
            · exact Nat.le_refl _
            · exact least y hy
          simp only [beq_iff_eq]
          omega
        rw [List.filter_cons_of_pos (by simp [hb]), none]
        simp [hb]
      · rw [List.filter_cons_of_neg (by simp [hb])]
        simp [hb]
    · simp only [List.filter_cons (x := x), ih sorted]
      split <;> rfl

/-! ## What a call can do -/

theorem make_of_le (p : BestFit) {size : Nat} (h : size ≤ Buffer.largest) :
    p.make size = (.ok ⟨p.next, .replicate size 0⟩, { p with next := p.next + 1 }) := by
  simp only [make, Buffer.allocate, Nat.not_lt.2 h, if_false]

theorem make_of_lt (p : BestFit) {size : Nat} (h : Buffer.largest < size) :
    p.make size = (.error .outOfMemory, p) := by
  simp only [make, Buffer.allocate, h, if_true]

/-- A new buffer has the next number and just the size that was asked for. -/
theorem make_cases (p : BestFit) (size : Nat) :
    (∃ f, p.make size = (.error f, p)) ∨
      ∃ b, p.make size = (.ok b, { p with next := p.next + 1 }) ∧ b.id = p.next ∧ b.capacity = size := by
  rcases Nat.lt_or_ge Buffer.largest size with excess | possible
  · exact .inl ⟨_, p.make_of_lt excess⟩
  · exact .inr ⟨_, p.make_of_le possible, rfl, by simp [Buffer.capacity]⟩

/-- A lease takes a buffer out of the pool, or makes one when none is large enough. -/
theorem lease_cases (p : BestFit) (size : Nat) :
    (∃ b ∈ p.bySize, size ≤ b.capacity ∧ p.lease size = (.ok b, p.takeOut b)) ∨
      p.lease size = p.make size ∧ ∀ b ∈ p.bySize, b.capacity < size := by
  unfold lease
  split
  · next none =>
    refine .inr ⟨rfl, ?_⟩
    intro b hb
    have := List.find?_eq_none.1 none b hb
    simpa using this
  · next b found =>
    refine .inl ⟨b, List.mem_of_find?_eq_some found, ?_, rfl⟩
    simpa using List.find?_some found

theorem make_ok {p q : BestFit} {size : Nat} {b : Buffer} (h : p.make size = (.ok b, q)) :
    b.id = p.next ∧ q = { p with next := p.next + 1 } := by
  rcases p.make_cases size with ⟨f, made⟩ | ⟨b', made, number, -⟩
  · rw [h] at made
    cases made
  · rw [h] at made
    cases made
    exact ⟨number, rfl⟩

theorem lease_ok {p q : BestFit} {size : Nat} {b : Buffer} (h : p.lease size = (.ok b, q)) :
    (b ∈ p.bySize ∧ q = p.takeOut b) ∨ p.make size = (.ok b, q) := by
  rcases p.lease_cases size with ⟨b', hb, -, leased⟩ | ⟨leased, -⟩
  · rw [h] at leased
    cases leased
    exact .inl ⟨hb, rfl⟩
  · exact .inr (leased ▸ h)

/-- A lease that fails changes nothing. -/
theorem eq_of_lease_error {p p' : BestFit} {size : Nat} {f : Fault}
    (h : p.lease size = (.error f, p')) : p' = p := by
  rcases p.lease_cases size with ⟨b, -, -, leased⟩ | ⟨leased, -⟩
  · rw [h] at leased
    cases leased
  · rcases p.make_cases size with ⟨f', made⟩ | ⟨b, made, -⟩
    · rw [leased, made] at h
      cases h
      rfl
    · rw [leased, made] at h
      cases h

/-- A release frees the buffer or keeps it and trims. -/
theorem release_cases (p : BestFit) (b : Buffer) :
    (p.limit < b.capacity ∧ p.release b = p.free b) ∨
      (b.capacity ≤ p.limit ∧ p.release b = (p.keep b).trim (p.keep b).byRelease) := by
  unfold release
  split
  · next excess => exact .inl ⟨excess, rfl⟩
  · next fits => exact .inr ⟨Nat.not_lt.1 fits, rfl⟩

/-! ## Indexes that agree -/

namespace Indexed

variable {p : BestFit} {b : Buffer}

theorem distinctBySize (h : p.Indexed) : (p.bySize.map Buffer.id).Nodup :=
  (h.same.map Buffer.id).nodup_iff.2 h.distinct

theorem byRelease_perm (h : p.Indexed) (hb : b ∈ p.byRelease) :
    (b :: (p.takeOut b).byRelease).Perm p.byRelease :=
  cons_without_perm h.distinct hb

/-- The total less what is taken out is the sum of what stays. -/
theorem capacity_add_sum (h : p.Indexed) (hb : b ∈ p.byRelease) :
    b.capacity + ((p.takeOut b).byRelease.map Buffer.capacity).sum = p.cachedBytes := by
  rw [h.total, ← ((h.byRelease_perm hb).map Buffer.capacity).sum_eq]
  simp

theorem capacity_le (h : p.Indexed) (hb : b ∈ p.byRelease) : b.capacity ≤ p.cachedBytes := by
  rw [← h.capacity_add_sum hb]
  exact Nat.le_add_right _ _

theorem takeOut (h : p.Indexed) (hb : b ∈ p.byRelease) : (p.takeOut b).Indexed := by
  have byRelease : (p.takeOut b).byRelease = p.byRelease.filter (·.id != b.id) :=
    without_eq_filter h.distinct b.id
  have bySize : (p.takeOut b).bySize = p.bySize.filter (·.id != b.id) :=
    without_eq_filter h.distinctBySize b.id
  refine ⟨?_, ?_, ?_, ?_, ?_⟩
  · rw [byRelease, bySize]
    exact h.same.filter _
  · rw [byRelease]
    exact h.distinct.sublist (List.filter_sublist.map Buffer.id)
  · rw [bySize]
    exact h.sorted.filter _
  · intro n
    rw [byRelease, bySize, List.filter_comm, h.inTurn n, List.filter_comm]
  · show p.cachedBytes - b.capacity = _
    have := h.capacity_add_sum hb
    omega

theorem free (h : p.Indexed) : (p.free b).Indexed :=
  ⟨h.same, h.distinct, h.sorted, h.inTurn, h.total⟩

theorem keep (h : p.Indexed) (hb : b.id ∉ p.byRelease.map Buffer.id) : (p.keep b).Indexed := by
  refine ⟨?_, ?_, insertBySize_sorted h.sorted, ?_, ?_⟩
  · have moved : ([b] ++ p.byRelease).Perm (p.byRelease ++ [b]) := List.perm_append_comm
    exact (insertBySize_perm b p.bySize).trans ((h.same.cons b).trans moved)
  · show ((p.byRelease ++ [b]).map Buffer.id).Nodup
    rw [List.map_append, List.map_singleton, List.nodup_append]
    refine ⟨h.distinct, List.nodup_singleton _, ?_⟩
    intro i hi j hj
    rw [List.mem_singleton.1 hj]
    exact fun e => hb (e ▸ hi)
  · intro n
    show (insertBySize b p.bySize).filter _ = (p.byRelease ++ [b]).filter _
    rw [filter_insertBySize h.sorted, h.inTurn, List.filter_append]
  · show p.cachedBytes + b.capacity = ((p.byRelease ++ [b]).map Buffer.capacity).sum
    rw [h.total]
    simp

theorem make {size : Nat} (h : p.Indexed) : (p.make size).2.Indexed := by
  rcases p.make_cases size with ⟨f, made⟩ | ⟨b, made, -⟩
  · rw [made]
    exact h
  · rw [made]
    exact ⟨h.same, h.distinct, h.sorted, h.inTurn, h.total⟩

/-- Trimming is never stopped by an empty index or by a total that is too small: while the total is
above the limit there is an oldest buffer, and the total contains it. -/
theorem trims (h : p.Indexed) : ∃ gone, Trims p gone (p.trim p.byRelease) := by
  -- the loop goes down the list that it was given, which stays the one by release
  suffices trims : ∀ l, p.byRelease = l → ∃ gone, Trims p gone (p.trim l) from trims _ rfl
  intro l hl
  induction l generalizing p with
  | nil =>
    refine ⟨[], .fits ?_⟩
    rw [h.total, hl]
    exact Nat.zero_le _
  | cons b rest ih =>
    unfold trim
    split
    · next fits => exact ⟨[], .fits fits⟩
    · next excess =>
      have hb : b ∈ p.byRelease := hl ▸ List.mem_cons_self
      have left : ((p.takeOut b).free b).byRelease = rest := takeOut_oldest hl
      obtain ⟨gone, rest'⟩ := ih (h.takeOut hb).free left
      exact ⟨b.id :: gone,
        .evict (Nat.not_le.1 excess) hl (h.same.mem_iff.2 hb) (h.capacity_le hb) rest'⟩

end Indexed

/-! ## Trimming -/

namespace Trims

variable {p q : BestFit} {gone : List Nat} (h : Trims p gone q)
include h

theorem within : q.cachedBytes ≤ q.limit := by
  induction h with
  | fits h => exact h
  | evict _ _ _ _ _ ih => exact ih

theorem indexed (hp : p.Indexed) : q.Indexed := by
  induction h with
  | fits _ => exact hp
  | evict _ oldest _ _ _ ih => exact ih (hp.takeOut (oldest ▸ List.mem_cons_self)).free

theorem limit_eq : q.limit = p.limit := by
  induction h with
  | fits _ => rfl
  | evict _ _ _ _ _ ih => exact ih

theorem next_eq : q.next = p.next := by
  induction h with
  | fits _ => rfl
  | evict _ _ _ _ _ ih => exact ih

theorem freed_eq : q.freed = p.freed ++ gone := by
  induction h with
  | fits _ => exact (List.append_nil _).symm
  | @evict p q b rest gone _ _ _ _ _ ih =>
    rw [ih]
    show (p.freed ++ [b.id]) ++ gone = _
    rw [List.append_assoc, List.singleton_append]

/-- What was freed are the oldest buffers, and the others stay. -/
theorem append_byRelease : gone ++ q.byRelease.map Buffer.id = p.byRelease.map Buffer.id := by
  induction h with
  | fits _ => rfl
  | @evict p q b rest gone _ oldest _ _ _ ih =>
    have left : ((p.takeOut b).free b).byRelease = rest := takeOut_oldest oldest
    rw [List.cons_append, ih, left, oldest]
    rfl

end Trims

/-! ## Calls -/

/-- A release of a buffer that the pool does not have frees it when it is above the limit, and what
is in the way of it when it is not. -/
theorem Indexed.release_trims {p : BestFit} {b : Buffer} (h : p.Indexed)
    (hb : b.id ∉ p.byRelease.map Buffer.id) :
    (p.limit < b.capacity ∧ p.release b = p.free b) ∨
      (b.capacity ≤ p.limit ∧ ∃ gone, Trims (p.keep b) gone (p.release b)) := by
  rcases p.release_cases b with excess | ⟨fits, released⟩
  · exact .inl excess
  · refine .inr ⟨fits, ?_⟩
    rw [released]
    exact (h.keep hb).trims

namespace Tidy

variable {p : BestFit}

theorem capacity_le_limit (h : p.Tidy) {b : Buffer} (hb : b ∈ p.byRelease) : b.capacity ≤ p.limit :=
  Nat.le_trans (h.capacity_le hb) h.within

theorem make (h : p.Tidy) (size : Nat) : (p.make size).2.Tidy := by
  refine ⟨h.toIndexed.make, ?_⟩
  rcases p.make_cases size with ⟨f, made⟩ | ⟨b, made, -⟩
  · rw [made]
    exact h.within
  · rw [made]
    exact h.within

theorem lease (h : p.Tidy) (size : Nat) : (p.lease size).2.Tidy := by
  rcases p.lease_cases size with ⟨b, hb, -, leased⟩ | ⟨leased, -⟩
  · rw [leased]
    exact ⟨h.takeOut (h.same.mem_iff.1 hb), Nat.le_trans (Nat.sub_le _ _) h.within⟩
  · rw [leased]
    exact h.make size

theorem release (h : p.Tidy) {b : Buffer} (hb : b.id ∉ p.byRelease.map Buffer.id) :
    (p.release b).Tidy := by
  rcases h.toIndexed.release_trims hb with ⟨-, released⟩ | ⟨-, gone, trims⟩
  · rw [released]
    exact ⟨h.toIndexed.free, h.within⟩
  · exact ⟨trims.indexed (h.toIndexed.keep hb), trims.within⟩

end Tidy

end RequestFlow.BestFit
