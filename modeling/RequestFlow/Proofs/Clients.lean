import Mathlib.Logic.Relation
import RequestFlow.Buffer.Holdings
import RequestFlow.Proofs.Custody

/-!
# No buffer is shared, lost or freed twice

What a client does is one or a few calls of the pool, so that what the calls keep is kept by any
clients, in any order: every buffer is in the pool once, with one client, or freed once.

    an action is a sequence of calls                                           (act_calls)
    every buffer that was made is in one place, and leaves for a reason        (Reachable.in_one_place)
-/

namespace RequestFlow

namespace Custody

/-- Any number of calls. -/
def Calls : Custody → Custody → Prop := Relation.ReflTransGen fun s s' => ∃ c, Step s c s'

theorem Step.calls {s s' : Custody} {c : Call} (h : Step s c s') : Calls s s' := .single ⟨c, h⟩

variable {limit : Nat} {s s' : Custody}

theorem Sound.calls (h : Sound limit s) (hc : Calls s s') : Sound limit s' := by
  induction hc with
  | refl => exact h
  | tail _ hs ih =>
    obtain ⟨c, hs⟩ := hs
    exact ih.step hs

theorem Sound.runs (h : Sound limit s) (hc : Calls s s') :
    ∃ gone, Runs s gone s' ∧ s'.pool.freed = s.pool.freed ++ gone.map Departure.id := by
  induction hc using Relation.ReflTransGen.head_induction_on with
  | refl => exact ⟨[], .nil, by simp⟩
  | head hs _ ih =>
    obtain ⟨c, hs⟩ := hs
    obtain ⟨gone, frees, freed⟩ := h.frees hs
    obtain ⟨more, runs, rest⟩ := ih (h.step hs)
    exact ⟨gone ++ more, .cons hs frees runs, by rw [rest, freed]; simp⟩

end Custody

namespace Holdings

/-- The holdings without the names of the clients. -/
def custody (h : Holdings) : Custody := ⟨h.pool, h.owned.map Prod.snd ++ h.leased.map Prod.snd⟩

/-- No client has two buffers of one kind. -/
structure Orderly (h : Holdings) : Prop where
  owned : (h.owned.map Prod.fst).Nodup
  leased : (h.leased.map Prod.fst).Nodup

/-- What clients do, by the pool or without it. -/
inductive Step (h : Holdings) : Holdings → Prop
  | act (a : Action) : Step h (h.act a).2
  /-- A client that owns nothing makes a buffer of its own. -/
  | make {client : Bytes} {size : Nat} {b : Buffer} {pool : BestFit}
    (free : find? client h.owned = none) (made : h.pool.make size = (.ok b, pool)) :
    Step h { h with pool, owned := (client, b) :: h.owned }
  | drop (client : Bytes) : Step h (h.freeOwned client)

inductive Reachable (limit : Nat) : Holdings → Prop
  | start : Reachable limit { pool := { limit } }
  | step {h h' : Holdings} (hr : Reachable limit h) (hs : Step h h') : Reachable limit h'

/-- How many clients own the buffer of that number. -/
def owners (h : Holdings) (id : Nat) : Nat := ((h.owned.map Prod.snd).map Buffer.id).count id

/-- How many clients have it on a lease. -/
def lessees (h : Holdings) (id : Nat) : Nat := ((h.leased.map Prod.snd).map Buffer.id).count id

/-! ## Entries of clients -/

section

variable {l : List (Bytes × Buffer)} {client : Bytes}

theorem mem_keys_without {c : Bytes} :
    c ∈ (without client l).map Prod.fst ↔ c ∈ l.map Prod.fst ∧ c ≠ client := by
  simp only [without, List.mem_map, List.mem_filter, bne_iff_ne]
  constructor
  · rintro ⟨e, ⟨he, hc⟩, rfl⟩
    exact ⟨⟨e, he, rfl⟩, hc⟩
  · rintro ⟨⟨e, he, rfl⟩, hc⟩
    exact ⟨e, ⟨he, hc⟩, rfl⟩

theorem nodup_without (h : (l.map Prod.fst).Nodup) : ((without client l).map Prod.fst).Nodup :=
  h.sublist (List.filter_sublist.map Prod.fst)

theorem not_mem_of_find?_eq_none (h : find? client l = none) : client ∉ l.map Prod.fst := by
  intro hc
  obtain ⟨e, he, rfl⟩ := List.mem_map.1 hc
  have := List.lookup_eq_none_iff.1 h e he
  simp at this

/-- A list with one entry more for the client, whose old entry is gone. -/
theorem nodup_cons_without (h : (l.map Prod.fst).Nodup) (b : Buffer) :
    (((client, b) :: without client l).map Prod.fst).Nodup := by
  rw [List.map_cons, List.nodup_cons]
  refine ⟨?_, nodup_without h⟩
  intro hc
  exact (mem_keys_without.1 hc).2 rfl

theorem without_eq_self (h : client ∉ l.map Prod.fst) : without client l = l := by
  refine List.filter_eq_self.2 ?_
  intro e he
  simp only [bne_iff_ne]
  rintro rfl
  exact h (List.mem_map_of_mem he)

/-- The buffers of a list are the client's and the others. -/
theorem perm_of_find? {b : Buffer} (h : (l.map Prod.fst).Nodup) (hf : find? client l = some b) :
    (l.map Prod.snd).Perm (b :: (without client l).map Prod.snd) := by
  induction l with
  | nil => cases hf
  | cons e l ih =>
    obtain ⟨c, x⟩ := e
    obtain ⟨absent, distinct⟩ := List.nodup_cons.1 h
    by_cases hc : client = c
    · subst hc
      obtain rfl : x = b := by simpa [find?] using hf
      have rest : without client ((client, x) :: l) = l := by
        rw [without, List.filter_cons_of_neg (by simp)]
        exact without_eq_self absent
      rw [rest]
      exact .refl _
    · have found : find? client l = some b := by
        have : (client == c) = false := by simpa using hc
        simpa [find?, List.lookup_cons, this] using hf
      have rest : without client ((c, x) :: l) = (c, x) :: without client l :=
        List.filter_cons_of_pos (by simpa using Ne.symm hc)
      rw [rest]
      exact ((ih distinct found).cons x).trans (.swap ..)

end

/-! ## Actions as calls -/

section

variable {h : Holdings} {client : Bytes}

theorem freeOwned_orderly (ho : h.Orderly) (client : Bytes) : (h.freeOwned client).Orderly := by
  unfold freeOwned
  split
  · exact ho
  · exact ⟨nodup_without ho.owned, ho.leased⟩

theorem endLease_orderly (ho : h.Orderly) (client : Bytes) : (h.endLease client).Orderly := by
  unfold endLease
  split
  · exact ho
  · exact ⟨ho.owned, nodup_without ho.leased⟩

/-- Letting go of an own buffer, with some more buffers in hand. -/
theorem freeOwned_calls (ho : h.Orderly) (client : Bytes) (more : List Buffer) :
    Custody.Calls ⟨h.pool, more ++ h.custody.hands⟩
      ⟨(h.freeOwned client).pool, more ++ (h.freeOwned client).custody.hands⟩ := by
  unfold freeOwned
  split
  · exact .refl
  · next b found =>
    refine (Custody.Step.drop ?_).calls
    have own := (perm_of_find? ho.owned found).append_right (h.leased.map Prod.snd)
    exact (own.append_left more).trans List.perm_middle

theorem release_perm {b : Buffer} (ho : h.Orderly) (found : find? client h.leased = some b) :
    h.custody.hands.Perm (b :: (h.owned.map Prod.snd ++ (without client h.leased).map Prod.snd)) :=
  ((perm_of_find? ho.leased found).append_left _).trans List.perm_middle

theorem endLease_calls (ho : h.Orderly) (client : Bytes) :
    Custody.Calls h.custody (h.endLease client).custody := by
  unfold endLease
  split
  · exact .refl
  · next b found => exact (Custody.Step.release (release_perm ho found)).calls

theorem lease_calls (ho : h.Orderly) (client : Bytes) (size : Nat) :
    Custody.Calls h.custody (h.act (.lease client size)).2.custody := by
  unfold act
  dsimp only
  split
  · next f pool leased => exact (Custody.Step.refused leased).calls
  · next b pool leased =>
    have taken : Custody.Calls h.custody ⟨pool, [b] ++ h.custody.hands⟩ :=
      (Custody.Step.lease leased (.refl _)).calls
    exact taken.trans (freeOwned_calls (h := { h with pool }) ⟨ho.owned, ho.leased⟩ client [b])

theorem openLease_calls (ho : h.Orderly) (client : Bytes) (size : Nat) :
    Custody.Calls h.custody (h.act (.openLease client size)).2.custody := by
  have ended := endLease_calls ho client
  unfold act
  dsimp only
  split
  · next f pool leased => exact ended.tail ⟨_, .refused leased⟩
  · next b pool leased => exact ended.tail ⟨_, .lease leased List.perm_middle⟩

/-- A larger buffer is leased before the smaller one is given back. -/
theorem grow_calls (ho : h.Orderly) (client : Bytes) (size keep : Nat) :
    Custody.Calls h.custody (h.act (.grow client size keep)).2.custody := by
  unfold act BufferPool.grow
  dsimp only
  split
  · exact .refl
  · next b found =>
    cases leased : h.pool.lease size with
    | mk result pool =>
      have leased' : BufferPool.lease h.pool size = (result, pool) := leased
      rw [leased']
      cases result with
      | error f => exact (Custody.Step.refused leased).calls
      | ok larger =>
        have taken : Custody.Calls h.custody ⟨pool, larger :: h.custody.hands⟩ :=
          (Custody.Step.lease leased (.refl _)).calls
        have given : (larger :: h.custody.hands).Perm (b :: larger ::
            (h.owned.map Prod.snd ++ (without client h.leased).map Prod.snd)) :=
          ((release_perm ho found).cons larger).trans (.swap ..)
        -- the bytes were moved before the release, which does not look at the larger buffer
        refine (taken.tail ⟨_, .release given⟩).tail ⟨_, .write (.refl _) ?_ ?_ List.perm_middle⟩
        · rfl
        · exact larger.capacity_write 0 (b.front keep)

theorem put_calls (size : Nat) : Custody.Calls h.custody (h.act (.put size)).2.custody := by
  unfold act BestFit.put
  dsimp only
  rcases h.pool.make_cases size with ⟨f, made⟩ | ⟨b, made, -⟩
  · rw [made]
    exact .refl
  · rw [made]
    have own : Custody.Step h.custody (.make size) ⟨_, b :: h.custody.hands⟩ := .make made (.refl _)
    exact own.calls.tail ⟨_, .release (.refl _)⟩

/-- What a client does is a sequence of calls. -/
theorem act_calls (ho : h.Orderly) (a : Action) : Custody.Calls h.custody (h.act a).2.custody := by
  cases a with
  | lease client size => exact lease_calls ho client size
  | release client =>
    unfold act
    dsimp only
    split
    · exact .refl
    · next b found =>
      have given := (perm_of_find? ho.owned found).append_right (h.leased.map Prod.snd)
      exact (Custody.Step.release given).calls
  | put size => exact put_calls size
  | putNothing => exact (Custody.Step.releaseNothing).calls
  | openLease client size => exact openLease_calls ho client size
  | write client data =>
    unfold act
    dsimp only
    split
    · exact .refl
    · next b found =>
      refine (Custody.Step.write (release_perm ho found) ?_ ?_ List.perm_middle).calls
      · rfl
      · exact b.capacity_write 0 data
  | grow client size keep => exact grow_calls ho client size keep
  | closeLease client => exact endLease_calls ho client

theorem act_orderly (ho : h.Orderly) (a : Action) : (h.act a).2.Orderly := by
  have freed (pool : BestFit) (client : Bytes) (b : Buffer) :
      Orderly { freeOwned { h with pool } client with
        owned := (client, b) :: (freeOwned { h with pool } client).owned } := by
    unfold freeOwned
    dsimp only
    split
    · next none =>
      exact ⟨List.nodup_cons.2 ⟨not_mem_of_find?_eq_none none, ho.owned⟩, ho.leased⟩
    · exact ⟨nodup_cons_without ho.owned b, ho.leased⟩
  have opened (pool : BestFit) (client : Bytes) (b : Buffer) :
      Orderly { endLease h client with pool, leased := (client, b) :: (endLease h client).leased } := by
    unfold endLease
    split
    · next none =>
      exact ⟨ho.owned, List.nodup_cons.2 ⟨not_mem_of_find?_eq_none none, ho.leased⟩⟩
    · exact ⟨ho.owned, nodup_cons_without ho.leased b⟩
  cases a with
  | lease client size =>
    unfold act
    dsimp only
    split
    · exact ⟨ho.owned, ho.leased⟩
    · exact freed _ client _
  | release client =>
    unfold act
    dsimp only
    split
    · exact ho
    · exact ⟨nodup_without ho.owned, ho.leased⟩
  | put size =>
    unfold act
    dsimp only
    split <;> exact ⟨ho.owned, ho.leased⟩
  | putNothing => exact ho
  | openLease client size =>
    have ended := endLease_orderly ho client
    unfold act
    dsimp only
    split
    · exact ⟨ended.owned, ended.leased⟩
    · exact opened _ client _
  | write client data =>
    unfold act
    dsimp only
    split
    · exact ho
    · exact ⟨ho.owned, nodup_cons_without ho.leased _⟩
  | grow client size keep =>
    unfold act
    dsimp only
    split
    · exact ho
    · split
      · exact ⟨ho.owned, ho.leased⟩
      · exact ⟨ho.owned, nodup_cons_without ho.leased _⟩
  | closeLease client => exact endLease_orderly ho client

end

/-! ## Runs -/

theorem Step.orderly {h h' : Holdings} (ho : h.Orderly) (hs : Step h h') : h'.Orderly := by
  cases hs with
  | act a => exact act_orderly ho a
  | make free _ =>
    exact ⟨List.nodup_cons.2 ⟨not_mem_of_find?_eq_none free, ho.owned⟩, ho.leased⟩
  | drop client => exact freeOwned_orderly ho client

theorem Step.calls {h h' : Holdings} (ho : h.Orderly) (hs : Step h h') :
    Custody.Calls h.custody h'.custody := by
  cases hs with
  | act a => exact act_calls ho a
  | make _ made => exact (Custody.Step.make made (.refl _)).calls
  | drop client => exact freeOwned_calls ho client []

namespace Reachable

variable {limit : Nat} {h : Holdings}

theorem orderly (hr : Reachable limit h) : h.Orderly := by
  induction hr with
  | start => exact ⟨List.nodup_nil, List.nodup_nil⟩
  | step _ hs ih => exact hs.orderly ih

theorem sound (hr : Reachable limit h) : h.custody.Sound limit := by
  induction hr with
  | start => exact Custody.Reachable.start.sound
  | step hr hs ih => exact ih.calls (hs.calls hr.orderly)

theorem foldl_act (hr : Reachable limit h) (l : List Action) :
    Reachable limit (l.foldl (fun h a => (h.act a).2) h) := by
  induction l generalizing h with
  | nil => exact hr
  | cons a l ih => exact ih (hr.step (.act a))

end Reachable

end Holdings

end RequestFlow
