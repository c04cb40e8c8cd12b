import Mathlib.Data.Multiset.AddSub
import RequestFlow.Proofs.Closing
import RequestFlow.Proofs.Refinement

/-!
# What a counting pool counts

Clients lease buffers from a counting pool, write into them and give them back, by themselves, in a
lease of their own, in copies or in runs of a network.  Each release is of a buffer that was out, so
leases and releases differ by the buffers that are out and by the leases that failed: these were
counted before it turned out that their buffers could not be made.

    leases are releases, buffers that are out, and failed leases              (Used.leases_eq)
    a copy leaves the same buffers out as before it, however it ends          (Used.copyBody)
    a step of a machine changes a pool by a copy at most                      (Moves.pool)
    when the count is that of the buffers that are out                        (Used.outstanding_exact_iff)
-/

namespace RequestFlow

/-! ## Use of a pool -/

namespace Counting

/-- Leases that failed, as no array is so large. -/
def refusals (p : Counting) : Nat := p.sizes.toList.countP fun size => decide (Buffer.largest < size)

/-- What clients can bring about that release only buffers that are out. -/
inductive Used : Counting → Multiset Buffer → Prop
  | start : Used {} 0
  | lease {p p' : Counting} {out : Multiset Buffer} {size : Nat} {b : Buffer} (h : Used p out)
    (leased : p.lease size = (.ok b, p')) : Used p' (b ::ₘ out)
  | refused {p p' : Counting} {out : Multiset Buffer} {size : Nat} {f : Fault} (h : Used p out)
    (refused : p.lease size = (.error f, p')) : Used p' out
  | write {p : Counting} {out : Multiset Buffer} {b : Buffer} (h : Used p (b ::ₘ out)) (i : Nat)
    (data : Bytes) : Used p (b.write i data ::ₘ out)
  | release {p : Counting} {out : Multiset Buffer} {b : Buffer} (h : Used p (b ::ₘ out)) :
    Used (p.release b) out

end Counting

/-- The pool of the world is a counting pool, and these buffers of it are out. -/
def World.Accounts (w : World) (out : Multiset Buffer) : Prop :=
  ∃ p, w.pool = .counting p ∧ p.Used out

/-! ## Lemmas -/

/-- A buffer can be made to hold what another one of its number and size holds. -/
theorem Buffer.write_of_tag {b c : Buffer} (h : b.tag = c.tag) : b.write 0 c.bytes.toList = c := by
  obtain ⟨id, size⟩ := Prod.ext_iff.1 h
  have whole : (overwrite b.bytes 0 c.bytes.toList).toList = c.bytes.toList := by
    have length : c.bytes.toList.length = b.bytes.toList.length := by
      rw [Array.length_toList, Array.length_toList]
      exact size.symm
    rw [toList_overwrite _ _ _ (by rw [Nat.zero_add, length, Array.length_toList]), Nat.zero_add,
      length, List.drop_length]
    simp
  have bytes : overwrite b.bytes 0 c.bytes.toList = c.bytes := Array.toList_inj.1 whole
  rw [write, bytes]
  cases c
  exact congrArg (Buffer.mk · _) id

/-- A tag that is erased belongs to one of the buffers. -/
theorem exists_of_erase_tag {mine : List Buffer} {tag : Nat × Nat} (h : tag ∈ mine.map Buffer.tag) :
    ∃ x rest, mine.Perm (x :: rest) ∧ x.tag = tag ∧ (mine.map Buffer.tag).erase tag =
      rest.map Buffer.tag := by
  induction mine with
  | nil => cases h
  | cons y mine ih =>
    by_cases same : y.tag = tag
    · refine ⟨y, mine, .refl _, same, ?_⟩
      rw [List.map_cons, same, List.erase_cons_head]
    · have later : tag ∈ mine.map Buffer.tag := by
        rcases List.mem_cons.1 h with first | later
        · exact absurd first.symm same
        · exact later
      obtain ⟨x, rest, perm, hx, erased⟩ := ih later
      refine ⟨x, y :: rest, (perm.cons y).trans (.swap x y rest), hx, ?_⟩
      rw [List.map_cons, List.erase_cons_tail (by simpa using same), erased, List.map_cons]

/-- What was dealt with a pool of either kind was dealt with the counting pool that it is. -/
theorem Deals.counting {S : Type} [ByteSource S] {s t : S} {pool pool' : Pool} {l : List Dealing}
    (h : Deals s pool l t pool') {p : Counting} (hp : pool = .counting p) :
    ∃ p', pool' = .counting p' ∧ Deals s p l t p' := by
  induction h generalizing p with
  | nil => exact ⟨p, hp, .nil⟩
  | read hr _ ih =>
    obtain ⟨p', same, rest⟩ := ih hp
    exact ⟨p', same, .read hr rest⟩
  | lease hl _ ih =>
    subst hp
    cases hl
    obtain ⟨p', same, rest⟩ := ih rfl
    exact ⟨p', same, .lease rfl rest⟩
  | release b _ ih =>
    subst hp
    obtain ⟨p', same, rest⟩ := ih rfl
    exact ⟨p', same, .release b rest⟩

namespace Counting

variable {p p' : Counting} {out : Multiset Buffer}

theorem refusals_lease (p : Counting) (size : Nat) :
    (p.lease size).2.refusals = p.refusals + if Buffer.largest < size then 1 else 0 := by
  simp [refusals, lease, List.countP_append]

/-- A lease fails exactly if no array is so large. -/
theorem lease_error_iff (p : Counting) (size : Nat) :
    (∃ f, (p.lease size).1 = .error f) ↔ Buffer.largest < size := by
  show (∃ f, Buffer.allocate (p.leases + 1) size = .error f) ↔ _
  unfold Buffer.allocate
  split
  · next large => exact iff_of_true ⟨_, rfl⟩ large
  · next fits => exact iff_of_false (by simp) fits

namespace Used

/-- Leases are releases, buffers that are out, and failed leases. -/
theorem leases_eq (h : Used p out) : p.leases = p.releases + out.card + p.refusals := by
  induction h with
  | start => rfl
  | @lease p p' out size b h leased ih =>
    obtain rfl : (p.lease size).2 = p' := congrArg Prod.snd leased
    have fits : ¬ Buffer.largest < size := by
      rw [← p.lease_error_iff, leased]
      simp
    rw [refusals_lease, if_neg fits, Multiset.card_cons]
    show p.leases + 1 = p.releases + _ + _
    omega
  | @refused p p' out size f h refused ih =>
    obtain rfl : (p.lease size).2 = p' := congrArg Prod.snd refused
    have large : Buffer.largest < size := (p.lease_error_iff size).1 ⟨f, congrArg Prod.fst refused⟩
    rw [refusals_lease, if_pos large]
    show p.leases + 1 = p.releases + _ + _
    omega
  | write h i data ih => rwa [Multiset.card_cons] at ih ⊢
  | @release p out b h ih =>
    rw [Multiset.card_cons] at ih
    show p.leases = p.releases + 1 + _ + p.refusals
    omega

theorem outstanding_eq (h : Used p out) :
    p.outstanding = (out.card + p.refusals) % Word.modulus := by
  have leases := h.leases_eq
  unfold outstanding
  rw [show p.leases + Word.modulus - p.releases = out.card + p.refusals + Word.modulus by omega,
    Nat.add_mod_right]

/-- Buffers that have the tag of a buffer that is out stand for it. -/
theorem release_tag {b x : Buffer} (h : Used p (x ::ₘ out)) (tag : x.tag = b.tag) :
    Used (p.release b) out := by
  have written := h.write 0 b.bytes.toList
  rw [Buffer.write_of_tag tag] at written
  exact written.release

/-- Whoever settles has the same buffers out as before. -/
theorem deals {S : Type} [ByteSource S] {s t : S} {l : List Dealing} (hd : Deals s p l t p')
    (mine : List Buffer) (h : Used p (mine + out)) (settles : Settles (mine.map Buffer.tag) l) :
    Used p' out := by
  induction hd generalizing mine with
  | nil =>
    obtain rfl : mine = [] := List.map_eq_nil_iff.1 settles
    simpa using h
  | read hr _ ih => exact ih mine h settles
  | @lease s last p q p' l size result hl _ ih =>
    cases result with
    | error f => exact ih mine (h.refused hl) settles
    | ok b =>
      have lent := h.lease hl
      rw [← Multiset.cons_add, Multiset.cons_coe] at lent
      exact ih _ lent settles
  | @release s last p p' l b _ ih =>
    obtain ⟨belongs, settles⟩ := settles
    obtain ⟨x, rest, perm, tag, erased⟩ := exists_of_erase_tag belongs
    rw [Multiset.coe_eq_coe.2 perm, ← Multiset.cons_coe, Multiset.cons_add] at h
    rw [erased] at settles
    exact ih rest (h.release_tag tag) settles

/-- An exchange on a lease leaves the larger buffer out in place of the old one, or fails and leaves
the old one. -/
theorem grow {b : Buffer} (h : Used p (b ::ₘ out)) (size keep : Nat) :
    (∃ larger, (BufferPool.grow p b size keep).1 = .ok larger ∧
      Used (BufferPool.grow p b size keep).2 (larger ::ₘ out)) ∨
    ∃ f, (BufferPool.grow p b size keep).1 = .error f ∧
      Used (BufferPool.grow p b size keep).2 (b ::ₘ out) := by
  unfold BufferPool.grow
  split
  · next f pool refused => exact .inr ⟨f, rfl, h.refused refused⟩
  · next larger pool leased =>
    have both : Used pool (larger ::ₘ b ::ₘ out) := h.lease leased
    have written := both.write 0 (b.front keep)
    rw [Multiset.cons_swap] at written
    exact .inl ⟨_, rfl, written.release⟩

/-- A copy leaves the same buffers out as before it, however it ends. -/
theorem copyBody {S : Type} [ByteSource S] (h : Used p out) (stream : Nat) (source : S) (length : Int)
    (size : Nat) : Used (RequestFlow.copyBody stream source length p size).pool out := by
  obtain ⟨l, last, logs, settled⟩ := copyBody_settled stream source length p size
  exact deals settled.deals [] (by simpa using h) settled.settles

end Used

/-- A copy is refused one lease at most. -/
theorem refusals_copyBody {S : Type} [ByteSource S] (stream : Nat) (source : S) (length : Int)
    (p : Counting) (size : Nat) :
    (RequestFlow.copyBody stream source length p size).pool.refusals ≤ p.refusals + 1 := by
  have counted {s t : S} {p p' : Counting} {l : List Dealing} (h : Deals s p l t p') :
      p'.refusals = p.refusals + (l.filterMap Dealing.refusal?).length := by
    induction h with
    | nil => rfl
    | read _ _ ih | release _ _ ih => exact ih
    | @lease s last p q p' l size result hl _ ih =>
      obtain rfl : (p.lease size).2 = q := congrArg Prod.snd hl
      have fails := p.lease_error_iff size
      rw [show (p.lease size).1 = result from congrArg Prod.fst hl] at fails
      rw [ih, refusals_lease]
      cases result with
      | error f =>
        rw [if_pos (fails.1 ⟨f, rfl⟩)]
        simp [Dealing.refusal?]
        omega
      | ok b =>
        rw [if_neg fun large => by simpa using fails.2 large]
        rfl
  obtain ⟨l, last, r, dealt⟩ := copyBody_dealt stream source length p size
  rw [counted dealt.deals]
  cases dealt.ending with
  | reached _ _ none | broken _ _ none => simp [none]
  | refused _ _ one => simp [one]

end Counting

/-! ## Runs of a network -/

namespace Machine

variable {w : World} {stack : List Frame} {m m' : Machine}

theorem taken_pool {w' : World} {k : CopyTask} (h : takeTask w = some (k, w')) : w'.pool = w.pool := by
  unfold takeTask at h
  split at h
  · cases h
  · split at h
    · cases h
    · cases h
      rfl

theorem exec_pool {i : Instr} (hk : ∀ k, i ≠ .copy k) : (exec w i stack).world.pool = w.pool := by
  cases i with
  | copy k => exact absurd rfl (hk k)
  | deliver a o =>
    simp only [exec, deliver]
    split
    · cases o.stream? <;> rfl
    · cases o with
      | authFailure message => rfl
      | failure f => rfl
      | reply r =>
        simp only [openReply]
        repeat' split
        all_goals rfl
  | runQueue n =>
    simp only [exec, runQueue]
    split
    · rfl
    · next taken => exact taken_pool taken
  | serve =>
    simp only [exec, serve]
    split
    · rfl
    · next taken => exact taken_pool taken
  | perform _ | dispatch _ | begin _ | send _ _ | turn _ _ | schedule _ | unscheduled _ _
  | receive _ _ _ _ | fail _ _ | settle _ _ _ | complete _ _ | react _ =>
    simp only [exec, perform, dispatch, begin, send, takeTurn, schedule, unscheduled, receive, fail,
      settle, complete, react]
    repeat' split
    all_goals rfl

theorem resume_pool (f : Frame) : (resume w f stack).world.pool = w.pool := by
  cases f with
  | attempts c =>
    simp only [resume, nextAttempt]
    split <;> rfl
  | submitting k fails => cases fails <;> rfl
  | reacting fault => cases fault <;> rfl
  | sending _ | nested | turn _ _ | holding _ | answering _ | queue _ | worker => rfl

theorem unwind_pool (fault : Fault) (f : Frame) : (unwind w fault f stack).world.pool = w.pool := by
  cases f with
  | sending a =>
    simp only [unwind]
    split <;> rfl
  | attempts _ | nested | turn _ _ | holding _ | submitting _ _ | reacting _ | answering _ | queue _
  | worker => rfl

/-- A step changes the pool by a copy at most. -/
theorem Moves.pool (h : m.Moves m') : m'.world.pool = m.world.pool ∨ ∃ k : CopyTask,
    m'.world.pool = (copyBody k.stream.id k.stream.source k.length m.world.pool
      m.world.config.bodyBuffer).pool := by
  cases h with
  | judge w c context answer stack => exact .inl rfl
  | step =>
    obtain ⟨w, control, stack⟩ := m
    cases control with
    | run i =>
      by_cases copies : ∃ k, i = .copy k
      · obtain ⟨k, rfl⟩ := copies
        refine .inr ⟨k, ?_⟩
        show (copy w k stack).world.pool = _
        unfold copy
        dsimp only
        split <;> rfl
      · exact .inl (exec_pool fun k hk => copies ⟨k, hk⟩)
    | done a =>
      cases stack with
      | nil => exact .inl rfl
      | cons f stack => exact .inl (resume_pool f)
    | raised fault =>
      cases stack with
      | nil => exact .inl rfl
      | cons f stack => exact .inl (unwind_pool fault f)

end Machine

namespace World

variable {w w' : World} {out : Multiset Buffer}

theorem Accounts.of_pool (h : w.Accounts out) (pool : w'.pool = w.pool) : w'.Accounts out := by
  unfold Accounts
  rw [pool]
  exact h

/-- A step of a machine leaves the same buffers out as before it. -/
theorem Accounts.move {m m' : Machine} (h : m.world.Accounts out) (hm : m.Moves m') :
    m'.world.Accounts out := by
  rcases hm.pool with same | ⟨k, copied⟩
  · exact h.of_pool same
  · obtain ⟨p, pool, used⟩ := h
    rw [pool] at copied
    obtain ⟨l, last, logs, settled⟩ := copyBody_settled k.stream.id k.stream.source k.length
      (Pool.counting p) m.world.config.bodyBuffer
    obtain ⟨p', pool', deals⟩ := settled.deals.counting rfl
    refine ⟨p', copied.trans pool', ?_⟩
    exact Counting.Used.deals deals [] (by simpa using used) settled.settles

theorem Accounts.run (n : Nat) (m : Machine) (h : m.world.Accounts out) :
    (Machine.run n m).world.Accounts out := by
  induction n generalizing m with
  | zero => exact h
  | succ n ih =>
    unfold Machine.run
    split
    · exact h
    · exact ih m.step (h.move (.step m))

theorem pool_settleExecutor (w : World) : w.settleExecutor.pool = w.pool := by
  have closing (l : List CopyTask) (v : World) :
      (l.foldl (fun w t => w.closeStream t.stream) v).pool = v.pool := by
    induction l generalizing v with
    | nil => rfl
    | cons t l ih => exact ih (v.closeStream t.stream)
  unfold settleExecutor
  split
  · rfl
  · split
    · rfl
    · exact closing _ w

theorem pool_begin (w : World) (op : Operation) : (w.begin op).world.pool = w.pool := by
  cases op with
  | resolve =>
    unfold begin
    dsimp only
    split <;> rfl
  | detachExecutor | dropNetwork | dropExecutor => exact pool_settleExecutor _
  | perform _ | runTasks | refuseTasks _ | deferAttempts _ | advance _ | classifyWith _
  | submitMode _ => rfl

theorem Accounts.apply (h : w.Accounts out) (op : Operation) : (w.apply op).2.Accounts out := by
  have ran := Accounts.run (w.budget op.performs) _ (h.of_pool (w.pool_begin op))
  show (serveAll _).Accounts out
  unfold serveAll
  split
  · exact ran
  · split
    · exact Accounts.run _ _ ran
    · exact ran

theorem Accounts.applyAll (h : w.Accounts out) (ops : List Operation) :
    (w.applyAll ops).Accounts out := by
  induction ops generalizing w with
  | nil => exact h
  | cons op ops ih => exact ih (h.apply op)

end World

/-! ## Results -/

namespace Counting

/-- **The count is exact while no lease fails.**  However clients use a counting pool, by themselves,
in leases of their own, in copies and in runs of a network, the count has the buffers that are out
and the leases that have failed.  So it is exact if no lease has failed, and only then as long as it
has not gone round.  Copies and runs leave the same buffers out as before them, however they end; a
copy from a pool with nothing to count leaves nothing to count exactly if no lease of it failed. -/
theorem Used.outstanding_exact_iff {p : Counting} {out : Multiset Buffer} (h : p.Used out) :
    (p.outstanding = out.card ↔ out.card < Word.modulus ∧ Word.modulus ∣ p.refusals) ∧
    (∀ (b : Buffer) (rest : Multiset Buffer) (size keep : Nat), out = b ::ₘ rest →
      ((∃ larger, (BufferPool.grow p b size keep).1 = .ok larger ∧
          (BufferPool.grow p b size keep).2.Used (larger ::ₘ rest)) ∨
        ∃ f, (BufferPool.grow p b size keep).1 = .error f ∧
          (BufferPool.grow p b size keep).2.Used out)) ∧
    (∀ (S : Type) [ByteSource S] (stream : Nat) (source : S) (length : Int) (size : Nat),
      (RequestFlow.copyBody stream source length p size).pool.Used out ∧
      (out = 0 → p.refusals = 0 →
        ((RequestFlow.copyBody stream source length p size).pool.outstanding = 0 ↔
          (RequestFlow.copyBody stream source length p size).pool.refusals = 0))) ∧
    (∀ m m' : Machine, m.Moves m' → m.world.pool = .counting p → m'.world.Accounts out) ∧
    ∀ (w : World) (ops : List Operation), w.pool = .counting p → (w.applyAll ops).Accounts out := by
  refine ⟨?_, ?_, ?_, fun m m' hm pool => World.Accounts.move ⟨p, pool, h⟩ hm,
    fun w ops pool => World.Accounts.applyAll ⟨p, pool, h⟩ ops⟩
  · rw [h.outstanding_eq]
    unfold Word.modulus
    omega
  · rintro b rest size keep rfl
    exact h.grow size keep
  · intro S _ stream source length size
    have copied := h.copyBody stream source length size
    refine ⟨copied, ?_⟩
    rintro rfl sound
    have once := refusals_copyBody stream source length p size
    rw [copied.outstanding_eq, Multiset.card_zero]
    unfold Word.modulus
    omega

/-- What is left of a new pool after the copy of a body of two bytes that was declared to be larger
than any array. -/
def overDeclared : Counting :=
  (RequestFlow.copyBody 0 (Source.chunked (text "ab") 1 false) 4611686018427387904 ({} : Counting)
    256).pool

theorem outstanding_exact_iff_overDeclared :
    Used {} 0 ∧ overDeclared.Used 0 ∧ overDeclared.refusals = 1 ∧ overDeclared.outstanding ≠ 0 := by
  obtain ⟨used, exact'⟩ := (Used.outstanding_exact_iff .start).2.2.1 Source 0
    (Source.chunked (text "ab") 1 false) 4611686018427387904 256
  have refused : overDeclared.refusals = 1 := by decide +kernel
  refine ⟨.start, used, refused, fun none => ?_⟩
  have sound : overDeclared.refusals = 0 := (exact' rfl rfl).1 none
  omega

/-- No buffer is out, and one is counted. -/
theorem overDeclared_counts_one :
    ∃ p, Used p 0 ∧ p = (RequestFlow.copyBody 0 (Source.chunked (text "ab") 1 false)
      4611686018427387904 ({} : Counting) 256).pool ∧ p.outstanding = 1 := by
  refine ⟨overDeclared, ?_, rfl, by decide +kernel⟩
  exact Used.start.copyBody 0 (Source.chunked (text "ab") 1 false) 4611686018427387904 256

end Counting

end RequestFlow
