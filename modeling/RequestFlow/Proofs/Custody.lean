import RequestFlow.Proofs.Indexes

/-!
# Where each buffer is

Every buffer that was ever made is in the pool, in somebody's hands, or freed.  The pool does its
calls one at a time, so a run is a sequence of them, in between with what clients do with a buffer of
their own: make one, write into it, or drop it.

    the pool stays tidy in every run, and no sum of it leaves a machine word   (Reachable.tidy)
    a call frees a buffer above the limit, what trimming evicts, or a dropped one
                                                                               (Sound.frees)
-/

namespace RequestFlow

/-- A pool and the buffers that are out of it, one entry for each hand that has one. -/
structure Custody where
  pool : BestFit
  hands : List Buffer := []

namespace Custody

inductive Call
  | lease (size : Nat)
  /-- Makes a buffer without the pool. -/
  | make (size : Nat)
  | write (b : Buffer)
  | release (b : Buffer)
  | releaseNothing
  | drop (b : Buffer)

inductive Step (s : Custody) : Call → Custody → Prop
  | lease {size : Nat} {b : Buffer} {pool : BestFit} {hands : List Buffer}
    (h : s.pool.lease size = (.ok b, pool)) (taken : hands.Perm (b :: s.hands)) :
    Step s (.lease size) ⟨pool, hands⟩
  | refused {size : Nat} {f : Fault} {pool : BestFit} (h : s.pool.lease size = (.error f, pool)) :
    Step s (.lease size) ⟨pool, s.hands⟩
  | make {size : Nat} {b : Buffer} {pool : BestFit} {hands : List Buffer}
    (h : s.pool.make size = (.ok b, pool)) (taken : hands.Perm (b :: s.hands)) :
    Step s (.make size) ⟨pool, hands⟩
  /-- What a buffer holds is the business of who has it. -/
  | write {b b' : Buffer} {rest hands : List Buffer} (given : s.hands.Perm (b :: rest))
    (id : b'.id = b.id) (capacity : b'.capacity = b.capacity) (taken : hands.Perm (b' :: rest)) :
    Step s (.write b) ⟨s.pool, hands⟩
  | release {b : Buffer} {hands : List Buffer} (given : s.hands.Perm (b :: hands)) :
    Step s (.release b) ⟨s.pool.release b, hands⟩
  | releaseNothing : Step s .releaseNothing s
  | drop {b : Buffer} {hands : List Buffer} (given : s.hands.Perm (b :: hands)) :
    Step s (.drop b) ⟨s.pool.free b, hands⟩

/-- A run from an empty pool. -/
inductive Reachable (limit : Nat) : Custody → Prop
  | start : Reachable limit ⟨{ limit }, []⟩
  | step {s s' : Custody} {c : Call} (h : Reachable limit s) (hs : Step s c s') : Reachable limit s'

/-! ## Places -/

/-- How often the buffer of that number is in the pool. -/
def cached (s : Custody) (id : Nat) : Nat := (s.pool.byRelease.map Buffer.id).count id

/-- How many hands have it. -/
def held (s : Custody) (id : Nat) : Nat := (s.hands.map Buffer.id).count id

/-- How often it was freed. -/
def freed (s : Custody) (id : Nat) : Nat := s.pool.freed.count id

/-- One for the number of a buffer that was made. -/
def made (s : Custody) (id : Nat) : Nat := if 1 ≤ id ∧ id < s.pool.next then 1 else 0

structure Sound (limit : Nat) (s : Custody) : Prop where
  tidy : s.pool.Tidy
  limit : s.pool.limit = limit
  numbered : 1 ≤ s.pool.next
  once : ∀ id, s.cached id + s.held id + s.freed id = s.made id

/-! ## Departures -/

inductive Departure
  /-- The buffer was released and is above the limit. -/
  | rejected (id : Nat)
  /-- The buffer was the oldest one when the pool had more than its limit. -/
  | evicted (id : Nat)
  /-- Who had the buffer let go of it. -/
  | dropped (id : Nat)
  deriving DecidableEq, Repr

def Departure.id : Departure → Nat
  | rejected id | evicted id | dropped id => id

/-- The call frees these buffers, for these reasons. -/
def Call.Frees (s s' : Custody) (gone : List Departure) : Call → Prop
  | .release b =>
    (s.pool.limit < b.capacity ∧ gone = [.rejected b.id]) ∨
      (b.capacity ≤ s.pool.limit ∧
        ∃ ids, BestFit.Trims (s.pool.keep b) ids s'.pool ∧ gone = ids.map .evicted)
  | .drop b => gone = [.dropped b.id]
  | _ => gone = []

/-- Calls one after the other, with what they free. -/
inductive Runs : Custody → List Departure → Custody → Prop
  | nil {s : Custody} : Runs s [] s
  | cons {s s' s'' : Custody} {c : Call} {gone more : List Departure} (hs : Step s c s')
    (hf : c.Frees s s' gone) (hr : Runs s' more s'') : Runs s (gone ++ more) s''

/-! ## Lemmas -/

theorem made_le_one (s : Custody) (id : Nat) : s.made id ≤ 1 := by
  unfold made
  split <;> omega

theorem held_perm {s : Custody} {b : Buffer} {rest : List Buffer} (h : s.hands.Perm (b :: rest))
    (id : Nat) : s.held id = (rest.map Buffer.id).count id + if b.id = id then 1 else 0 := by
  unfold held
  rw [(h.map Buffer.id).count_eq, List.map_cons, List.count_cons]
  simp only [beq_iff_eq]

namespace Sound

variable {limit : Nat} {s : Custody} (h : Sound limit s)
include h

/-- A buffer in somebody's hands is nowhere else. -/
theorem elsewhere {b : Buffer} (hb : b ∈ s.hands) :
    s.held b.id = 1 ∧ s.cached b.id = 0 ∧ s.freed b.id = 0 := by
  have := h.once b.id
  have := s.made_le_one b.id
  have held : 0 < s.held b.id := List.count_pos_iff.2 (List.mem_map_of_mem hb)
  omega

theorem notCached {b : Buffer} (hb : b ∈ s.hands) : b.id ∉ s.pool.byRelease.map Buffer.id := by
  obtain ⟨-, cached, -⟩ := h.elsewhere hb
  exact List.count_eq_zero.1 cached

theorem make {size : Nat} {b : Buffer} {pool : BestFit} {hands : List Buffer}
    (hm : s.pool.make size = (.ok b, pool)) (taken : hands.Perm (b :: s.hands)) :
    Sound limit ⟨pool, hands⟩ := by
  have tidy := h.tidy.make size
  rw [hm] at tidy
  obtain ⟨number, rfl⟩ := BestFit.make_ok hm
  refine ⟨tidy, h.limit, Nat.le_succ_of_le h.numbered, ?_⟩
  intro id
  have := h.once id
  have numbered := h.numbered
  rw [held_perm (s := ⟨_, hands⟩) taken]
  show s.cached id + (s.held id + _) + s.freed id = _
  -- the number of the new buffer is the only one that was not made before and is now
  unfold Custody.made at this ⊢
  dsimp only
  rw [number]
  split at this <;> split <;> split <;> omega

theorem takeOut {b : Buffer} {hands : List Buffer} (hb : b ∈ s.pool.bySize)
    (tidy : (s.pool.takeOut b).Tidy) (taken : hands.Perm (b :: s.hands)) :
    Sound limit ⟨s.pool.takeOut b, hands⟩ := by
  refine ⟨tidy, h.limit, h.numbered, ?_⟩
  intro id
  have before := h.once id
  have moved := (h.tidy.byRelease_perm (h.tidy.same.mem_iff.1 hb)).map Buffer.id
  have cached : s.cached id =
      (((s.pool.takeOut b).byRelease.map Buffer.id).count id + if b.id = id then 1 else 0) := by
    unfold Custody.cached
    rw [← moved.count_eq, List.map_cons, List.count_cons]
    simp only [beq_iff_eq]
  rw [held_perm (s := ⟨_, hands⟩) taken]
  show ((s.pool.takeOut b).byRelease.map Buffer.id).count id + (s.held id + _) + s.freed id = s.made id
  omega

theorem lease {size : Nat} {b : Buffer} {pool : BestFit} {hands : List Buffer}
    (hl : s.pool.lease size = (.ok b, pool)) (taken : hands.Perm (b :: s.hands)) :
    Sound limit ⟨pool, hands⟩ := by
  have tidy := h.tidy.lease size
  rw [hl] at tidy
  rcases BestFit.lease_ok hl with ⟨hb, rfl⟩ | made
  · exact h.takeOut hb tidy taken
  · exact h.make made taken

/-- A lease gives a buffer that nobody has. -/
theorem nobody {size : Nat} {b : Buffer} {pool : BestFit} (hl : s.pool.lease size = (.ok b, pool)) :
    s.held b.id = 0 ∧ s.freed b.id = 0 := by
  have once := h.once b.id
  rcases BestFit.lease_ok hl with ⟨hb, -⟩ | made
  · have cached : 0 < s.cached b.id :=
      List.count_pos_iff.2 (List.mem_map_of_mem (h.tidy.same.mem_iff.1 hb))
    have := s.made_le_one b.id
    omega
  · obtain ⟨number, -⟩ := BestFit.make_ok made
    have unmade : s.made b.id = 0 := if_neg (by omega)
    omega

theorem write {b b' : Buffer} {rest hands : List Buffer} (given : s.hands.Perm (b :: rest))
    (id : b'.id = b.id) (taken : hands.Perm (b' :: rest)) : Sound limit ⟨s.pool, hands⟩ := by
  refine ⟨h.tidy, h.limit, h.numbered, ?_⟩
  intro i
  have before := h.once i
  rw [held_perm given] at before
  rw [held_perm (s := ⟨_, hands⟩) taken, id]
  exact before

theorem drop {b : Buffer} {hands : List Buffer} (given : s.hands.Perm (b :: hands)) :
    Sound limit ⟨s.pool.free b, hands⟩ := by
  refine ⟨⟨h.tidy.free, h.tidy.within⟩, h.limit, h.numbered, ?_⟩
  intro id
  have before := h.once id
  rw [held_perm given] at before
  show s.cached id + (hands.map Buffer.id).count id + (s.pool.freed ++ [b.id]).count id = s.made id
  rw [List.count_append, List.count_singleton]
  simp only [beq_iff_eq]
  show s.cached id + (hands.map Buffer.id).count id + (s.freed id + _) = s.made id
  omega

/-- What trimming evicts goes from the pool to the freed ones. -/
theorem trims {b : Buffer} {hands : List Buffer} {q : BestFit} {gone : List Nat}
    (given : s.hands.Perm (b :: hands)) (tidy : q.Tidy) (ht : (s.pool.keep b).Trims gone q) :
    Sound limit ⟨q, hands⟩ := by
  have same : q.next = s.pool.next := ht.next_eq
  refine ⟨tidy, ht.limit_eq.trans h.limit, same ▸ h.numbered, ?_⟩
  intro id
  have before := h.once id
  rw [held_perm given] at before
  have left : gone.count id + (q.byRelease.map Buffer.id).count id =
      s.cached id + if b.id = id then 1 else 0 := by
    rw [← List.count_append, ht.append_byRelease]
    show ((s.pool.byRelease ++ [b]).map Buffer.id).count id = _
    rw [List.map_append, List.count_append, List.map_singleton, List.count_singleton]
    simp only [beq_iff_eq]
    rfl
  have freed : q.freed.count id = s.freed id + gone.count id := by
    rw [ht.freed_eq, List.count_append]
    rfl
  have made : made ⟨q, hands⟩ id = s.made id := by simp only [Custody.made, same]
  show (q.byRelease.map Buffer.id).count id + (hands.map Buffer.id).count id + q.freed.count id = _
  omega

theorem release {b : Buffer} {hands : List Buffer} (given : s.hands.Perm (b :: hands)) :
    Sound limit ⟨s.pool.release b, hands⟩ := by
  have absent := h.notCached (given.mem_iff.2 List.mem_cons_self)
  rcases h.tidy.release_trims absent with ⟨-, released⟩ | ⟨-, gone, ht⟩
  · rw [released]
    exact h.drop given
  · exact h.trims given (h.tidy.release absent) ht

theorem step {s' : Custody} {c : Call} (hs : Step s c s') : Sound limit s' := by
  cases hs with
  | lease leased taken => exact h.lease leased taken
  | refused leased =>
    rw [BestFit.eq_of_lease_error leased]
    exact h
  | make made taken => exact h.make made taken
  | write given id _ taken => exact h.write given id taken
  | release given => exact h.release given
  | releaseNothing => exact h
  | drop given => exact h.drop given

/-- What a call frees, it frees for a reason. -/
theorem frees {s' : Custody} {c : Call} (hs : Step s c s') :
    ∃ gone, c.Frees s s' gone ∧ s'.pool.freed = s.pool.freed ++ gone.map Departure.id := by
  cases hs with
  | @lease size b pool hands leased taken =>
    refine ⟨[], rfl, ?_⟩
    rcases BestFit.lease_ok leased with ⟨-, rfl⟩ | made
    · simp [BestFit.takeOut]
    · obtain ⟨-, rfl⟩ := BestFit.make_ok made
      simp
  | refused leased => exact ⟨[], rfl, by simp [BestFit.eq_of_lease_error leased]⟩
  | @make size b pool hands made taken =>
    refine ⟨[], rfl, ?_⟩
    obtain ⟨-, rfl⟩ := BestFit.make_ok made
    simp
  | write _ _ _ _ => exact ⟨[], rfl, by simp⟩
  | @release b hands given =>
    have absent := h.notCached (given.mem_iff.2 List.mem_cons_self)
    rcases h.tidy.release_trims absent with ⟨excess, released⟩ | ⟨fits, gone, ht⟩
    · exact ⟨[.rejected b.id], .inl ⟨excess, rfl⟩, by rw [released]; rfl⟩
    · refine ⟨gone.map .evicted, .inr ⟨fits, gone, ht, rfl⟩, ?_⟩
      have freed : (s.pool.release b).freed = s.pool.freed ++ gone := ht.freed_eq
      have ids : (gone.map Departure.evicted).map Departure.id = gone := by
        rw [List.map_map]
        exact List.map_id gone
      rw [ids]
      exact freed
  | releaseNothing => exact ⟨[], rfl, by simp⟩
  | @drop b hands given => exact ⟨[.dropped b.id], rfl, rfl⟩

end Sound

theorem Reachable.sound {limit : Nat} {s : Custody} (h : Reachable limit s) : Sound limit s := by
  induction h with
  | start =>
    refine ⟨⟨⟨.refl _, List.nodup_nil, .nil, fun _ => rfl, rfl⟩, Nat.zero_le _⟩, rfl, Nat.le_refl _, ?_⟩
    intro id
    have unmade : ¬ (1 ≤ id ∧ id < 1) := by omega
    exact (if_neg unmade).symm
  | step _ hs ih => exact ih.step hs

/-- **A tidy pool.** Whatever is leased and released, by whom and in what order, the two indexes of
the pool agree, its total is that of its buffers and within the limit, and a failed lease changes
nothing.  No total falls below zero or leaves a machine word, and to keep a buffer the pool evicts
its oldest ones until it fits, never running out of them. -/
theorem Reachable.tidy {limit : Nat} {s : Custody} (hl : limit < 2 ^ 63) (h : Reachable limit s) :
    s.pool.Tidy ∧ s.pool.cachedBytes ≤ limit ∧
      (∀ b ∈ s.pool.byRelease, b.capacity ≤ limit ∧ b.capacity ≤ s.pool.cachedBytes) ∧
      (∀ size f pool, s.pool.lease size = (.error f, pool) → pool = s.pool) ∧
      (∀ b ∈ s.hands, b.capacity ≤ limit →
        (s.pool.keep b).cachedBytes < 2 ^ 64 ∧
          ∃ gone, (s.pool.keep b).Trims gone (s.pool.release b)) := by
  have sound := h.sound
  have within : s.pool.cachedBytes ≤ limit := sound.limit ▸ sound.tidy.within
  refine ⟨sound.tidy, within, ?_, fun size f pool => BestFit.eq_of_lease_error, ?_⟩
  · intro b hb
    exact ⟨sound.limit ▸ sound.tidy.capacity_le_limit hb, sound.tidy.capacity_le hb⟩
  · intro b hb fits
    have word : (s.pool.keep b).cachedBytes < 2 ^ 64 := by
      show s.pool.cachedBytes + b.capacity < 2 ^ 64
      omega
    refine ⟨word, ?_⟩
    rcases sound.tidy.release_trims (sound.notCached hb) with ⟨excess, -⟩ | ⟨-, trims⟩
    · have := sound.limit
      omega
    · exact trims

/-- A pool of ten bytes that has six of them, and a buffer of five in somebody's hands. -/
def crowded : Custody where
  pool := BestFit.release { limit := 10, next := 3 } ⟨1, .replicate 6 0⟩
  hands := [⟨2, .replicate 5 0⟩]

theorem crowded_reachable : Reachable 10 crowded := by
  have first : Step ⟨{ limit := 10 }, []⟩ (.make 6)
      ⟨{ limit := 10, next := 2 }, [⟨1, .replicate 6 0⟩]⟩ := .make rfl (.refl _)
  have second : Step ⟨{ limit := 10, next := 2 }, [⟨1, .replicate 6 0⟩]⟩ (.make 5)
      ⟨{ limit := 10, next := 3 }, [⟨1, .replicate 6 0⟩, ⟨2, .replicate 5 0⟩]⟩ :=
    .make rfl (.swap ..)
  exact .step (.step (.step .start first) second) (.release (.refl _))

theorem tidy_crowded :
    Reachable 10 crowded ∧ crowded.pool.Tidy ∧ crowded.pool.cachedBytes = 6 ∧
      (∀ b ∈ crowded.hands, ∃ gone, (crowded.pool.keep b).Trims gone (crowded.pool.release b) ∧
        gone ++ (crowded.pool.release b).byRelease.map Buffer.id = [1, 2]) := by
  obtain ⟨tidy, -, -, -, released⟩ := crowded_reachable.tidy (by decide)
  refine ⟨crowded_reachable, tidy, by decide, ?_⟩
  intro b hb
  obtain rfl : b = ⟨2, .replicate 5 0⟩ := List.mem_singleton.1 hb
  obtain ⟨-, gone, trims⟩ := released _ hb (by decide)
  exact ⟨gone, trims, trims.append_byRelease.trans (by decide)⟩

end Custody

end RequestFlow
