import RequestFlow.Proofs.Clients

/-!
# Larger buffers for a lease

A client that needs more room exchanges the buffer of its lease for a larger one.  The larger buffer
is leased before the other is given back, so for a moment both are out of the pool, and the release
may free buffers that the pool has kept.  The client loses none of the bytes that it wanted to keep;
and when the larger buffer cannot be had, nothing has changed at all, in the pool or in the lease.

    a released buffer is in the pool once, or was freed once               (Sound.returned)
    the bytes that a client wrote are those that its buffer begins with    (InUse.kept)
    an exchange keeps bytes and gives the old buffer back, or does nothing (InUse.exchanges)
-/

namespace RequestFlow

/-! ## Bytes -/

namespace Buffer

/-- The buffer begins with these bytes. -/
def Begins (b : Buffer) (known : Bytes) : Prop := known <+: b.bytes.toList

theorem Begins.front {b : Buffer} {known : Bytes} (h : b.Begins known) :
    b.front known.length = known :=
  (List.prefix_iff_eq_take.1 h).symm

/-- Bytes that are written replace those in their place, and the others stay. -/
theorem Begins.write {b : Buffer} {known data : Bytes} {i : Nat} (h : b.Begins known)
    (start : i ≤ known.length) (room : i + data.length ≤ b.capacity) :
    (b.write i data).Begins (known.take i ++ data ++ known.drop (i + data.length)) := by
  obtain ⟨rest, whole⟩ := h
  refine ⟨rest.drop (i + data.length - known.length), ?_⟩
  show _ = (overwrite b.bytes i data).toList
  rw [toList_overwrite _ _ _ room, ← whole, List.take_append_of_le_length start, List.drop_append,
    List.append_assoc]

end Buffer

/-! ## Releases -/

namespace BestFit

theorem next_release {p : BestFit} {b : Buffer} (h : p.Indexed)
    (hb : b.id ∉ p.byRelease.map Buffer.id) : (p.release b).next = p.next := by
  rcases h.release_trims hb with ⟨-, released⟩ | ⟨-, gone, trims⟩
  · rw [released]
    rfl
  · exact trims.next_eq

end BestFit

namespace Custody

/-- The buffer has left the hands that had it and is in the pool once, or was freed once. -/
structure Returned (s : Custody) (id : Nat) : Prop where
  nobody : s.held id = 0
  once : s.cached id + s.freed id = 1

theorem Sound.returned {limit : Nat} {s : Custody} {b : Buffer} {rest : List Buffer}
    (h : Sound limit s) (given : s.hands.Perm (b :: rest)) :
    Returned ⟨s.pool.release b, rest⟩ b.id := by
  have hb : b ∈ s.hands := given.mem_iff.2 List.mem_cons_self
  obtain ⟨held, cached, freed⟩ := h.elsewhere hb
  have before := h.once b.id
  have after := (h.release given).once b.id
  have made : made ⟨s.pool.release b, rest⟩ b.id = s.made b.id := by
    simp only [Custody.made, BestFit.next_release h.tidy.toIndexed (h.notCached hb)]
  have nobody : Custody.held ⟨s.pool.release b, rest⟩ b.id = 0 := by
    rw [held_perm given, if_pos rfl] at held
    show (rest.map Buffer.id).count b.id = 0
    omega
  exact ⟨nobody, by omega⟩

/-- A lease never gives a buffer that is in somebody's hands. -/
theorem Sound.lent_ne {limit : Nat} {s : Custody} (h : Sound limit s) {b lent : Buffer} {size : Nat}
    {pool : BestFit} (hb : b ∈ s.hands) (leased : s.pool.lease size = (.ok lent, pool)) :
    lent.id ≠ b.id := by
  intro same
  have nobody := (h.nobody leased).1
  have somebody := (h.elsewhere hb).1
  rw [same] at nobody
  omega

end Custody

/-! ## A lease in use -/

namespace Holdings

/-- The holdings when the client has this buffer on its lease. -/
def withLease (h : Holdings) (client : Bytes) (b : Buffer) : Holdings :=
  { h with leased := (client, b) :: without client h.leased }

/-- A client has opened a lease and uses it: it writes into its buffer, within the bytes that are
known and the room behind them, and exchanges it, while others are at work on the same pool.  Known
are the bytes that it has written and kept. -/
inductive InUse (limit : Nat) (client : Bytes) : Holdings → Bytes → Prop
  | opened {h h' : Holdings} {size : Nat} {answer : Answer} (hr : Reachable limit h)
    (opens : h.act (.openLease client size) = (.ok answer, h')) : InUse limit client h' []
  | write {h : Holdings} {known data : Bytes} {b : Buffer} {i : Nat}
    (hu : InUse limit client h known) (found : find? client h.leased = some b)
    (start : i ≤ known.length) (room : i + data.length ≤ b.capacity) :
    InUse limit client (h.withLease client (b.write i data))
      (known.take i ++ data ++ known.drop (i + data.length))
  | grow {h h' : Holdings} {known : Bytes} {b : Buffer} {size keep : Nat} {answer : Answer}
    (hu : InUse limit client h known) (found : find? client h.leased = some b)
    (within : keep ≤ min size b.capacity)
    (grows : h.act (.grow client size keep) = (.ok answer, h')) :
    InUse limit client h' (known.take keep)
  | refused {h h' : Holdings} {known : Bytes} {size keep : Nat} {f : Fault}
    (hu : InUse limit client h known)
    (refuses : h.act (.grow client size keep) = (.error f, h')) : InUse limit client h' known
  | others {h h' : Holdings} {known : Bytes} (hu : InUse limit client h known) (hs : Step h h')
    (same : find? client h'.leased = find? client h.leased) : InUse limit client h' known

/-- The holdings are in order, and the client has a buffer that begins with what it knows. -/
structure Keeps (limit : Nat) (client : Bytes) (h : Holdings) (known : Bytes) (b : Buffer) :
    Prop where
  orderly : h.Orderly
  sound : h.custody.Sound limit
  found : find? client h.leased = some b
  begins : b.Begins known

/-- What comes of an exchange of the buffer `b` for the buffer `larger`, leased from `pool`. -/
structure Exchanged (h : Holdings) (client : Bytes) (b : Buffer) (size keep : Nat) (lent : Buffer)
    (pool : BestFit) (larger : Buffer) (h' : Holdings) : Prop where
  found : find? client h'.leased = some larger
  lent : larger.id = lent.id
  enough : size ≤ larger.capacity
  distinct : larger.id ≠ b.id
  front : larger.front keep = b.front keep
  released : h'.pool = pool.release b
  returned : h'.custody.Returned b.id
  owned : h'.owned = h.owned
  others : ∀ other, other ≠ client → find? other h'.leased = find? other h.leased

section

variable {limit : Nat} {h : Holdings} {client : Bytes} {b : Buffer}

theorem find?_withLease (h : Holdings) (client : Bytes) (b : Buffer) :
    find? client (h.withLease client b).leased = some b := by
  simp [find?, withLease]

/-- The entries of the other clients stay. -/
theorem find?_other (h : Holdings) (b : Buffer) {other : Bytes} (ho : other ≠ client) :
    find? other (h.withLease client b).leased = find? other h.leased := by
  have differs : (other == client) = false := by simpa using ho
  unfold find? withLease without
  rw [List.lookup_cons, differs]
  induction h.leased with
  | nil => rfl
  | cons e l ih =>
    obtain ⟨c, x⟩ := e
    by_cases hc : c = client
    · subst hc
      rw [List.filter_cons_of_neg (by simp), List.lookup_cons, differs]
      exact ih
    · rw [List.filter_cons_of_pos (by simpa using hc), List.lookup_cons, List.lookup_cons]
      cases other == c
      · exact ih
      · rfl

/-- An exchange whose larger buffer was had. -/
theorem act_grow_ok {size : Nat} (keep : Nat) {lent : Buffer} {pool : BestFit}
    (found : find? client h.leased = some b) (leased : h.pool.lease size = (.ok lent, pool)) :
    h.act (.grow client size keep) =
      (.ok (.grown (lent.write 0 (b.front keep)).id (lent.write 0 (b.front keep)).capacity
        ((lent.write 0 (b.front keep)).front keep)),
        { h with pool := pool.release b }.withLease client (lent.write 0 (b.front keep))) := by
  have grown : BufferPool.grow h.pool b size keep =
      (.ok (lent.write 0 (b.front keep)), pool.release b) := by
    unfold BufferPool.grow
    rw [show BufferPool.lease h.pool size = (.ok lent, pool) from leased]
    rfl
  simp only [act, found, grown]
  rfl

/-- An exchange whose larger buffer was not had: neither the pool nor the lease has changed. -/
theorem act_grow_error {size keep : Nat} {f : Fault} {pool : BestFit}
    (found : find? client h.leased = some b) (leased : h.pool.lease size = (.error f, pool)) :
    h.act (.grow client size keep) = (.error f, h) := by
  have grown : BufferPool.grow h.pool b size keep = (.error f, h.pool) := by
    unfold BufferPool.grow
    rw [show BufferPool.lease h.pool size = (.error f, pool) from leased,
      BestFit.eq_of_lease_error leased]
  simp only [act, found, grown]

namespace Keeps

variable {known : Bytes}

/-- The client of a lease is the one hand that has its buffer. -/
theorem mem_hands (hk : Keeps limit client h known b) : b ∈ h.custody.hands :=
  (release_perm hk.orderly hk.found).mem_iff.2 List.mem_cons_self

theorem write (hk : Keeps limit client h known b) {i : Nat} {data : Bytes} (start : i ≤ known.length)
    (room : i + data.length ≤ b.capacity) :
    Keeps limit client (h.withLease client (b.write i data))
      (known.take i ++ data ++ known.drop (i + data.length)) (b.write i data) := by
  refine ⟨⟨hk.orderly.owned, nodup_cons_without hk.orderly.leased _⟩, ?_, find?_withLease .., ?_⟩
  · have same : (b.write i data).id = b.id := rfl
    exact hk.sound.write (release_perm hk.orderly hk.found) same List.perm_middle
  · exact hk.begins.write start room

/-- The buffers that are out once the larger one was leased, the old one first. -/
theorem both_perm (hk : Keeps limit client h known b) (lent : Buffer) :
    (lent :: h.custody.hands).Perm (b :: lent ::
      (h.owned.map Prod.snd ++ (without client h.leased).map Prod.snd)) :=
  ((release_perm hk.orderly hk.found).cons lent).trans (.swap ..)

theorem exchanged (hk : Keeps limit client h known b) {size keep : Nat} {lent : Buffer}
    {pool : BestFit} (within : keep ≤ min size b.capacity)
    (leased : h.pool.lease size = (.ok lent, pool)) :
    Exchanged h client b size keep lent pool (lent.write 0 (b.front keep))
      ({ h with pool := pool.release b }.withLease client (lent.write 0 (b.front keep))) := by
  have enough : size ≤ lent.capacity :=
    LawfulBufferPool.le_capacity h.pool size lent (congrArg Prod.fst leased)
  have both : Custody.Sound limit ⟨pool, lent :: h.custody.hands⟩ := hk.sound.lease leased (.refl _)
  have back := both.returned (hk.both_perm lent)
  have distinct := hk.sound.lent_ne hk.mem_hands leased
  refine ⟨find?_withLease .., rfl, ?_, distinct, ?_, rfl, ⟨?_, back.once⟩, rfl,
    fun other ho => find?_other _ _ ho⟩
  · rw [Buffer.capacity_write]
    exact enough
  · exact Buffer.front_takeOver b lent (by omega) (by omega)
  · -- the larger buffer has the same number, with whatever bytes
    have hands : (Custody.mk (pool.release b) (h.owned.map Prod.snd ++
        lent :: (without client h.leased).map Prod.snd)).held b.id = 0 := by
      have := back.nobody
      unfold Custody.held at this ⊢
      rwa [(List.perm_middle.map Buffer.id).count_eq]
    unfold Custody.held custody withLease at *
    simpa [Buffer.write] using hands

theorem grow (hk : Keeps limit client h known b) {size keep : Nat} {lent : Buffer} {pool : BestFit}
    (within : keep ≤ min size b.capacity) (leased : h.pool.lease size = (.ok lent, pool)) :
    Keeps limit client
      ({ h with pool := pool.release b }.withLease client (lent.write 0 (b.front keep)))
      (known.take keep) (lent.write 0 (b.front keep)) := by
  have exchanged := hk.exchanged within leased
  have done := act_grow_ok keep hk.found leased
  refine ⟨?_, ?_, exchanged.found, ?_⟩
  · have orderly := act_orderly hk.orderly (.grow client size keep)
    rwa [done] at orderly
  · have sound := hk.sound.calls (act_calls hk.orderly (.grow client size keep))
    rwa [done] at sound
  · have moved : (lent.write 0 (b.front keep)).front keep <+:
        (lent.write 0 (b.front keep)).bytes.toList := List.take_prefix keep _
    rw [exchanged.front] at moved
    exact (hk.begins.take keep).trans moved

end Keeps

/-- Whatever is done to the lease and around it, its buffer begins with what the client knows. -/
theorem InUse.kept {known : Bytes} (hu : InUse limit client h known) :
    ∃ b, Keeps limit client h known b := by
  induction hu with
  | @opened h h' size answer hr opens =>
    have orderly := act_orderly hr.orderly (.openLease client size)
    have sound := hr.sound.calls (act_calls hr.orderly (.openLease client size))
    rw [opens] at orderly sound
    have found : ∃ b, find? client h'.leased = some b := by
      unfold act at opens
      dsimp only at opens
      split at opens
      · cases opens
      · next b pool leased =>
        cases opens
        exact ⟨b, by simp [find?]⟩
    obtain ⟨b, found⟩ := found
    exact ⟨b, orderly, sound, found, List.nil_prefix⟩
  | write hu found start room ih =>
    obtain ⟨b, hk⟩ := ih
    obtain rfl := Option.some.inj (hk.found.symm.trans found)
    exact ⟨_, hk.write start room⟩
  | @grow h h' known b size keep answer hu found within grows ih =>
    obtain ⟨b, hk⟩ := ih
    obtain rfl := Option.some.inj (hk.found.symm.trans found)
    cases leased : h.pool.lease size with
    | mk result pool =>
      cases result with
      | error f =>
        rw [act_grow_error found leased] at grows
        cases grows
      | ok lent =>
        rw [act_grow_ok keep found leased] at grows
        cases grows
        exact ⟨_, hk.grow within leased⟩
  | @refused h h' known size keep f hu refuses ih =>
    obtain ⟨b, hk⟩ := ih
    cases leased : h.pool.lease size with
    | mk result pool =>
      cases result with
      | error f =>
        rw [act_grow_error hk.found leased] at refuses
        cases refuses
        exact ⟨b, hk⟩
      | ok lent =>
        rw [act_grow_ok keep hk.found leased] at refuses
        cases refuses
  | others hu hs same ih =>
    obtain ⟨b, hk⟩ := ih
    exact ⟨b, hs.orderly hk.orderly, hk.sound.calls (hs.calls hk.orderly), same.trans hk.found,
      hk.begins⟩

/-- **Exchanged whole, or not at all.** A lease in use has one buffer, which begins with what its
client knows and which nobody else has.  If the pool lends a larger one, the exchange succeeds: the
client has the larger buffer, with the bytes that it wanted to keep, and the old one went back, once,
to the pool that had lent the other.  If the pool lends none, the exchange fails with its fault and
everything is as before, so that closing the lease gives the buffer back, once. -/
theorem InUse.exchanges {known : Bytes} (hu : InUse limit client h known) :
    ∃ b, find? client h.leased = some b ∧ b.front known.length = known ∧
      h.owners b.id + h.lessees b.id = 1 ∧
      (∀ size keep, keep ≤ min size b.capacity →
        (∀ lent pool, h.pool.lease size = (.ok lent, pool) →
          ∃ larger h', h.act (.grow client size keep) =
              (.ok (.grown larger.id larger.capacity (larger.front keep)), h') ∧
            Exchanged h client b size keep lent pool larger h' ∧
            InUse limit client h' (known.take keep)) ∧
        (∀ f pool, h.pool.lease size = (.error f, pool) →
          h.act (.grow client size keep) = (.error f, h))) ∧
      (h.act (.closeLease client)).2.pool = h.pool.release b ∧
      (h.act (.closeLease client)).2.custody.Returned b.id := by
  obtain ⟨b, hk⟩ := hu.kept
  have one : h.owners b.id + h.lessees b.id = 1 := by
    have held := (hk.sound.elsewhere hk.mem_hands).1
    unfold Custody.held custody at held
    rwa [List.map_append, List.count_append] at held
  have closed : (h.act (.closeLease client)).2 =
      { h with pool := h.pool.release b, leased := without client h.leased } := by
    simp only [act, endLease, hk.found]
  refine ⟨b, hk.found, hk.begins.front, one, ?_, by rw [closed], ?_⟩
  · intro size keep within
    refine ⟨fun lent pool leased => ?_, fun f pool leased => act_grow_error hk.found leased⟩
    have done := act_grow_ok keep hk.found leased
    exact ⟨_, _, done, hk.exchanged within leased, hu.grow hk.found within done⟩
  · rw [closed]
    exact hk.sound.returned (release_perm hk.orderly hk.found)

end

/-- Two clients of a pool of ten bytes.  The one has written into the buffer of its lease, twice; the
other has given back a buffer that is large enough to be exchanged for it. -/
def written : Holdings :=
  let opened := [.lease (text "b") 8, .openLease (text "a") 4, .release (text "b")].foldl
    (fun h a => (h.act a).2) ({ pool := { limit := 10 } } : Holdings)
  (opened.withLease (text "a") ⟨2, #[97, 98, 99, 0]⟩).withLease (text "a") ⟨2, #[97, 88, 89, 0]⟩

theorem written_inUse : InUse 10 (text "a") written (text "aXY") := by
  have opened : InUse 10 (text "a") _ [] :=
    @InUse.opened _ _ _ _ 4 (.buffer 2 4) (Reachable.start.foldl_act [.lease (text "b") 8]) rfl
  have others := InUse.others opened (.act (.release (text "b"))) rfl
  have first := @InUse.write _ _ _ _ (text "abc") ⟨2, #[0, 0, 0, 0]⟩ 0 others (by rfl) (by decide)
    (by decide)
  exact @InUse.write _ _ _ _ (text "XY") ⟨2, #[97, 98, 99, 0]⟩ 1 first (by rfl) (by decide) (by decide)

/-- The buffer of eight bytes takes over two of them, and the one of four stays in the pool.  Then a
buffer is asked for that is larger than any. -/
theorem exchanges_written :
    InUse 10 (text "a") written (text "aXY") ∧
      ∃ b larger h', find? (text "a") written.leased = some b ∧ b.front 3 = text "aXY" ∧
        written.act (.grow (text "a") 6 2) = (.ok (.grown 1 8 (text "aX")), h') ∧
        h'.custody.Returned b.id ∧ find? (text "a") h'.leased = some larger ∧ larger.id ≠ b.id ∧
        h'.act (.grow (text "a") (2 ^ 62) 1) = (.error .outOfMemory, h') ∧
        (h'.act (.closeLease (text "a"))).2.custody.Returned larger.id := by
  obtain ⟨b, found, front, -, exchange, -⟩ := written_inUse.exchanges
  obtain rfl : b = ⟨2, #[97, 88, 89, 0]⟩ := Option.some.inj (found.symm.trans rfl)
  obtain ⟨larger, h', grows, exchanged, inUse⟩ := (exchange 6 2 (by decide)).1 _ _ rfl
  obtain ⟨b', found', -, -, again, -, returned⟩ := inUse.exchanges
  have same : b' = larger := Option.some.inj (found'.symm.trans exchanged.found)
  have enough := exchanged.enough
  subst same
  have answer := congrArg Prod.fst grows
  have state := congrArg Prod.snd grows
  refine ⟨written_inUse, _, b', h', found, front, ?_, exchanged.returned, found',
    exchanged.distinct, ?_, returned⟩
  · refine Prod.ext ?_ state
    rfl
  · obtain rfl := state
    exact (again (2 ^ 62) 1 (by omega)).2 .outOfMemory _ rfl

end Holdings

end RequestFlow
