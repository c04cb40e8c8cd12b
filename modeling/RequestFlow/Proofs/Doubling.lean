import Mathlib
import RequestFlow.Proofs.Delivery
import RequestFlow.Word

/-!
# How the buffers of a copy grow

A copy reads into the rest of the buffer that it was lent last, and into the probe when that buffer
is full.  So it never reads into no room, which a stream would take for its end, and it asks for
another buffer only when it holds more bytes than the one in hand has room for: then for twice that
many.  The requests at least double from one to the next, and none but the first is for more than
twice the bytes that the stream delivers.

    every call of the loop is one that the calls before it allow               (drain_obeys)
    until the k-th further request, the buffer in hand has doubled k times     (Obeys.geometric)
    the reads and requests of a copy, and how many there are                   (copyBody_doubles)
-/

namespace RequestFlow

/-- The capacity of the buffer that was lent last, and the number of bytes read so far. -/
structure Fill where
  capacity : Nat := 0
  size : Nat := 0

/-- The size of the buffer that was asked for. -/
def Dealing.asked? : Dealing → Option Nat
  | lease size _ => some size
  | _ => none

def requests (l : List Dealing) : List Nat := l.filterMap Dealing.asked?

namespace Fill

def after (s : Fill) : Dealing → Fill
  | .read _ (.ok bytes) => { s with size := s.size + bytes.length }
  | .lease _ (.ok b) => { s with capacity := b.capacity }
  | .read _ (.error _) | .lease _ (.error _) | .release _ => s

/-- What a list of calls leaves. -/
def of (l : List Dealing) : Fill := l.foldl after {}

/-- The buffer holds all bytes, and the read goes into the rest of it, or into the probe exactly when
it is full. -/
structure Aims (s : Fill) (room : Nat) : Prop where
  fits : s.size ≤ s.capacity
  pos : 0 < room
  room : room = if s.size = s.capacity then probeSize else s.capacity - s.size

/-- More bytes were read than the buffer in hand has room for, by a probe at most, and the larger one
is to have room for twice as many. -/
structure Enlarges (s : Fill) (size : Nat) : Prop where
  full : s.capacity < s.size
  probed : s.size ≤ s.capacity + probeSize
  twice : size = 2 * s.size

def Allows (s : Fill) : Dealing → Prop
  | .read room _ => s.Aims room
  | .lease size result => s.Enlarges size ∧ ∀ b, result = .ok b → size ≤ b.capacity
  | .release _ => True

/-- Each call is allowed by what the calls before it leave, and a refused request is the last one. -/
def Obeys : Fill → List Dealing → Prop
  | _, [] => True
  | s, d :: l => s.Allows d ∧ (d.refusal? ≠ none → requests l = []) ∧ (s.after d).Obeys l

end Fill

/-- How a copy that first asks for a buffer of the given size uses its buffers. -/
structure Doubles (first : Nat) (l : List Dealing) : Prop where
  opens : ∃ result rest, l = .lease first result :: rest
  aims : ∀ before room result rest, l = before ++ .read room result :: rest →
    (Fill.of before).Aims room
  /-- A further request is for twice the buffer in hand at least, and for more than was read. -/
  enlarges : ∀ before size result rest, before ≠ [] → l = before ++ .lease size result :: rest →
    2 * (Fill.of before).capacity ≤ size ∧ (Fill.of before).size < size
  /-- The sizes asked for do not leave a machine word as long as the buffers are no larger than any. -/
  holds : ∀ before size result rest, before ≠ [] → l = before ++ .lease size result :: rest →
    (Fill.of before).capacity ≤ Buffer.largest → size < Word.modulus
  geometric : ∀ k size, (requests l)[k]? = some size → first * 2 ^ k ≤ size
  bounded : ∀ size ∈ requests l, size ≤ max first (2 * (Fill.of l).size)
  /-- A first buffer that has room for all is the only one. -/
  single : ∀ b rest, l = .lease first (.ok b) :: rest → (Fill.of l).size ≤ b.capacity →
    requests l = [first]

/-! ## Lists of calls -/

namespace Fill

variable {s : Fill} {l : List Dealing}

theorem size_le_after (s : Fill) (d : Dealing) : s.size ≤ (s.after d).size := by
  rcases d with ⟨room, f | b⟩ | ⟨size, f | b⟩ | b <;> simp [after]

theorem size_le_foldl (s : Fill) (l : List Dealing) : s.size ≤ (l.foldl after s).size := by
  induction l generalizing s with
  | nil => exact Nat.le_refl _
  | cons d l ih => exact Nat.le_trans (s.size_le_after d) (ih _)

/-- The last buffer is given back after the loop. -/
theorem Obeys.release (h : s.Obeys l) (b : Buffer) : s.Obeys (l ++ [.release b]) := by
  induction l generalizing s with
  | nil => exact ⟨trivial, fun _ => rfl, trivial⟩
  | cons d l ih =>
    obtain ⟨allowed, refused, rest⟩ := h
    have same : requests (l ++ [.release b]) = requests l := by
      simp [requests, Dealing.asked?]
    exact ⟨allowed, fun hd => same.trans (refused hd), ih rest⟩

/-- A call in the middle of a list is allowed by those before it. -/
theorem Obeys.allows {before rest : List Dealing} {d : Dealing}
    (h : s.Obeys (before ++ d :: rest)) : (before.foldl after s).Allows d := by
  induction before generalizing s with
  | nil => exact h.1
  | cons e before ih => exact ih h.2.2

/-- Until the request at place `k`, the buffer in hand has doubled so many times, and once more. -/
theorem Obeys.geometric (h : s.Obeys l) {k size : Nat} (hk : (requests l)[k]? = some size) :
    s.capacity * 2 ^ (k + 1) ≤ size := by
  induction l generalizing s k with
  | nil => simp [requests] at hk
  | cons d l ih =>
    obtain ⟨allowed, refused, rest⟩ := h
    rcases d with ⟨room, f | b⟩ | ⟨asked, result⟩ | b
    · exact ih rest hk
    · exact ih rest hk
    · obtain ⟨⟨full, -, twice⟩, granted⟩ := allowed
      have doubled : s.capacity * 2 ≤ asked := by omega
      cases k with
      | zero =>
        cases hk
        simpa using doubled
      | succ k =>
        have later : (requests l)[k]? = some size := hk
        cases result with
        | error f =>
          rw [refused (by simp [Dealing.refusal?])] at later
          cases later
        | ok b =>
          calc s.capacity * 2 ^ (k + 1 + 1)
              _ = s.capacity * 2 * 2 ^ (k + 1) := by rw [Nat.pow_succ' (n := k + 1), Nat.mul_assoc]
              _ ≤ b.capacity * 2 ^ (k + 1) :=
                Nat.mul_le_mul_right _ (Nat.le_trans doubled (granted b rfl))
              _ ≤ size := ih rest later
    · exact ih rest hk

/-- No request is for more than twice the bytes that are read in the end. -/
theorem Obeys.bounded (h : s.Obeys l) {size : Nat} (hs : size ∈ requests l) :
    size ≤ 2 * (l.foldl after s).size := by
  obtain ⟨d, hd, asked⟩ := List.mem_filterMap.1 hs
  obtain ⟨before, rest, rfl⟩ := List.append_of_mem hd
  cases d with
  | read _ _ | release _ => cases asked
  | lease n result =>
    cases asked
    have twice := h.allows.1.twice
    have more := size_le_foldl (before.foldl after s) (.lease size result :: rest)
    rw [List.foldl_append]
    omega

/-- A buffer that has room for all that is read in the end is not exchanged. -/
theorem Obeys.single (h : s.Obeys l) (large : (l.foldl after s).size ≤ s.capacity) :
    requests l = [] := by
  induction l generalizing s with
  | nil => rfl
  | cons d l ih =>
    obtain ⟨allowed, -, rest⟩ := h
    rcases d with ⟨room, f | b⟩ | ⟨asked, result⟩ | b
    · exact ih rest large
    · exact ih rest large
    · have full := allowed.1.full
      have more := s.size_le_foldl (.lease asked result :: l)
      omega
    · exact ih rest large

end Fill

/-! ## The loop -/

variable {S P : Type} [ByteSource S] [BufferPool P]

namespace Copying

/-- What the calls so far have left of a copy under way. -/
def fill (c : Copying S P) : Fill := ⟨c.buffer.capacity, c.size⟩

omit [ByteSource S] [BufferPool P] in
theorem aims_room (c : Copying S P) (h : c.size ≤ c.buffer.capacity) : c.fill.Aims c.room := by
  refine ⟨h, c.room_pos h, ?_⟩
  simp only [room, isFull, beq_iff_eq]
  rfl

omit [ByteSource S] [BufferPool P] in
theorem fill_append (c : Copying S P) (piece : Bytes) :
    (c.append piece).fill = ⟨c.buffer.capacity, c.size + piece.length⟩ := by
  rw [fill, append, Buffer.capacity_write]

section

variable {c : Copying S P} {piece : Bytes} {rest : S} {t : Int}

omit [BufferPool P] in
/-- What a reading gave has room where it was to go. -/
theorem length_le_room (hr : ByteSource.read c.source c.room = ⟨.ok piece, rest, t⟩) :
    piece.length ≤ c.room :=
  ByteSource.length_read c.source c.room piece (by rw [hr])

omit [BufferPool P] in
/-- A full buffer and a probe that gave something make a larger buffer necessary. -/
theorem enlarges_probe (hr : ByteSource.read c.source c.room = ⟨.ok piece, rest, t⟩)
    (solid : piece ≠ []) (full : c.isFull = true) :
    Fill.Enlarges ⟨c.buffer.capacity, c.size + piece.length⟩ ((c.size + piece.length) * 2) := by
  have given := length_le_room hr
  have some : 0 < piece.length := List.length_pos_iff.2 solid
  rw [room, if_pos full] at given
  have size : c.size = c.buffer.capacity := by simpa [isFull] using full
  refine ⟨?_, ?_, Nat.mul_comm _ _⟩
  · show c.buffer.capacity < c.size + piece.length
    omega
  · show c.size + piece.length ≤ c.buffer.capacity + probeSize
    omega

end

/-- The loop makes the calls that its fill allows. -/
theorem drain_obeys [LawfulBufferPool P] (stream : Nat) (c : Copying S P)
    (h : c.size ≤ c.buffer.capacity) :
    ∃ l r, Drained stream c l r (c.drain stream).1 (c.drain stream).2 ∧ c.fill.Obeys l := by
  fun_induction Copying.drain stream c with
  | case1 c f rest t hr =>
    exact ⟨_, _, drained_error hr, c.aims_room h, by simp [Dealing.refusal?], trivial⟩
  | case2 c rest t hr =>
    exact ⟨_, _, drained_end hr, c.aims_room h, by simp [Dealing.refusal?], trivial⟩
  | case3 c b bs rest t hr decreases full read hf f failed hg =>
    obtain ⟨pool, leased, rfl⟩ := enlarge_error hg
    have solid := List.cons_ne_nil b bs
    refine ⟨_, _, drained_refused hr solid leased, c.aims_room h, by simp [Dealing.refusal?],
      ⟨enlarges_probe hr solid hf, ?_⟩, fun _ => rfl, trivial⟩
    intro lent hl
    cases hl
  | case4 c b bs t full hf larger hr decreases read hg ih =>
    obtain ⟨lent, pool, leased, same⟩ := enlarge_ok hg
    have solid := List.cons_ne_nil b bs
    have large : (c.size + (b :: bs).length) * 2 ≤ lent.capacity :=
      LawfulBufferPool.le_capacity read.pool _ lent (congrArg Prod.fst leased)
    have hp := congrArg Copying.pool same
    have hb := congrArg Copying.buffer same
    have hs := congrArg Copying.size same
    have ht := congrArg Copying.trace same
    have he := congrArg Copying.elapsed same
    have fits : (larger.append (b :: bs)).size ≤ (larger.append (b :: bs)).buffer.capacity :=
      (moved_body h large hb hs).1
    obtain ⟨l, r, drained, obeys⟩ := ih fits
    rw [fill_append, hb, Buffer.capacity_write, hs] at obeys
    refine ⟨_, _, Drained.enlarging hr solid leased hp hb hs ht he drained, c.aims_room h,
      by simp [Dealing.refusal?], ⟨enlarges_probe hr solid hf, ?_⟩, by simp [Dealing.refusal?],
      trivial, by simp [Dealing.refusal?], obeys⟩
    intro lent' hl
    cases hl
    exact large
  | case5 c b bs rest t hr decreases full read hf ih =>
    have part : c.isFull = false := by simpa using hf
    have given := length_le_room hr
    rw [room, if_neg (by simp [part])] at given
    have fits : (read.append (b :: bs)).size ≤ (read.append (b :: bs)).buffer.capacity :=
      (append_body (show c.size + (b :: bs).length ≤ c.buffer.capacity by omega)).1
    obtain ⟨l, r, drained, obeys⟩ := ih fits
    rw [fill_append] at obeys
    exact ⟨_, _, Drained.fitting hr (List.cons_ne_nil b bs) part drained, c.aims_room h,
      by simp [Dealing.refusal?], obeys⟩

end Copying

/-! ## The whole copy -/

theorem doubles_refused (first : Nat) (f : Fault) : Doubles first [.lease first (.error f)] := by
  have lone {before rest : List Dealing} {d : Dealing} (some : before ≠ [])
      (h : [Dealing.lease first (.error f)] = before ++ d :: rest) : False := by
    cases before with
    | nil => exact some rfl
    | cons e before => simp at h
  refine ⟨⟨_, _, rfl⟩, ?_, fun _ _ _ _ some h => (lone some h).elim,
    fun _ _ _ _ some h => (lone some h).elim, ?_, ?_, fun _ _ _ _ => rfl⟩
  · intro before room result rest h
    cases before with
    | nil => cases h
    | cons e before => simp at h
  · intro k size hk
    cases k with
    | zero =>
      cases hk
      simp
    | succ k => cases hk
  · intro size hs
    rw [List.mem_singleton.1 hs]
    exact Nat.le_max_left _ _

/-- A first buffer that is large enough, and calls that are allowed from there on. -/
theorem Fill.Obeys.doubles {first : Nat} {lent : Buffer} {l : List Dealing}
    (h : Obeys ⟨lent.capacity, 0⟩ l) (large : first ≤ lent.capacity) :
    Doubles first (.lease first (.ok lent) :: l) := by
  -- what comes later in the list comes in its tail, and the first call leaves the empty buffer
  have later {before rest : List Dealing} {d : Dealing} (some : before ≠ [])
      (split : .lease first (.ok lent) :: l = before ++ d :: rest) : (Fill.of before).Allows d := by
    cases before with
    | nil => exact absurd rfl some
    | cons e before =>
      obtain ⟨rfl, rfl⟩ := List.cons.inj split
      exact h.allows
  have requested : requests (.lease first (.ok lent) :: l) = first :: requests l := rfl
  refine ⟨⟨_, _, rfl⟩, ?_, ?_, ?_, ?_, ?_, ?_⟩
  · intro before room result rest split
    refine later (d := .read room result) ?_ split
    rintro rfl
    cases split
  · intro before size result rest some split
    obtain ⟨⟨full, -, twice⟩, -⟩ := later some split
    omega
  · intro before size result rest some split limited
    obtain ⟨⟨-, probed, twice⟩, -⟩ := later some split
    simp only [Buffer.largest, probeSize, Word.modulus] at *
    omega
  · intro k size hk
    rw [requested] at hk
    cases k with
    | zero =>
      cases hk
      simp
    | succ k => exact Nat.le_trans (Nat.mul_le_mul_right _ large) (h.geometric hk)
  · intro size hs
    rw [requested] at hs
    rcases List.mem_cons.1 hs with rfl | hs
    · exact Nat.le_max_left _ _
    · exact Nat.le_trans (h.bounded hs) (Nat.le_max_right _ _)
  · intro b rest same room
    obtain ⟨same, rfl⟩ := List.cons.inj same
    cases same
    rw [requested, h.single room]

theorem copyBody_obeys [LawfulBufferPool P] (stream : Nat) (source : S) (length : Int) (pool : P)
    (defaultSize : Nat) :
    ∃ l last r, Dealt stream source pool l last r
        (copyBody stream source length pool defaultSize) ∧
      Doubles (firstSize length defaultSize) l := by
  unfold copyBody
  dsimp only
  split
  · next f after leased => exact ⟨_, _, _, dealt_refused leased, doubles_refused _ f⟩
  · next first after leased =>
    have large := LawfulBufferPool.le_capacity pool _ first (congrArg Prod.fst leased)
    obtain ⟨l, r, drained, obeys⟩ := Copying.drain_obeys stream ⟨source, after, first, 0,
      #[.lease (firstSize length defaultSize) first.id first.capacity], 0⟩ (Nat.zero_le _)
    exact ⟨_, _, _, drained.dealt leased, Fill.Obeys.doubles (obeys.release _) large⟩

/-! ## What was read -/

namespace Fill

def lengthOf : Except Fault Bytes → Nat
  | .ok b => b.length
  | .error _ => 0

theorem size_foldl (s : Fill) (l : List Dealing) :
    (l.foldl after s).size = s.size + ((l.filterMap Dealing.reading?).map lengthOf).sum := by
  induction l generalizing s with
  | nil => rfl
  | cons d l ih =>
    rw [List.foldl_cons, ih]
    rcases d with ⟨room, f | b⟩ | ⟨size, f | b⟩ | b <;>
      simp [after, List.filterMap_cons, Dealing.reading?, lengthOf, Nat.add_assoc]

theorem size_of {l : List Dealing} {pieces : List Bytes} {last : List (Except Fault Bytes)}
    (readings : l.filterMap Dealing.reading? = pieces.map .ok ++ last)
    (none : (last.map lengthOf).sum = 0) : (of l).size = pieces.flatten.length := by
  have lengths : (pieces.map .ok).map lengthOf = pieces.map List.length := by
    simp [lengthOf, Function.comp_def]
  rw [of, size_foldl, readings, List.map_append, List.sum_append, none, lengths,
    List.length_flatten]
  simp

end Fill

/-- The readings before a refused request are a front of the content. -/
theorem Deals.delivered_front {s t : S} {p q : P} {l : List Dealing} (h : Deals s p l t q)
    (rooms : ∀ d ∈ l, d.HasRoom) {content : Bytes} {e : Except Fault Unit}
    (hd : Delivers s content e) {pieces : List Bytes} (solid : ∀ p ∈ pieces, p ≠ [])
    (readings : l.filterMap Dealing.reading? = pieces.map .ok) : pieces.flatten <+: content := by
  induction h generalizing content pieces with
  | nil =>
    have none : pieces = [] := by simpa using readings.symm
    rw [none]
    exact List.nil_prefix
  | @read s t last p p' l room result elapsed h rest ih =>
    have readings : result :: l.filterMap Dealing.reading? = pieces.map .ok := readings
    cases pieces with
    | nil => cases readings
    | cons piece pieces =>
      obtain ⟨rfl, others⟩ := List.cons.inj readings
      obtain ⟨more, rfl, later⟩ :=
        hd.next (rooms _ List.mem_cons_self) (by rw [h]) (solid piece List.mem_cons_self)
      rw [h] at later
      obtain ⟨end', rfl⟩ := ih (fun d hd => rooms d (List.mem_cons_of_mem _ hd)) later
        (fun p hp => solid p (List.mem_cons_of_mem _ hp)) others
      exact ⟨end', by simp⟩
  | lease _ _ ih | release _ _ ih =>
    exact ih (fun d hd => rooms d (List.mem_cons_of_mem _ hd)) hd solid readings

/-- A copy reads no more than the content of its stream, and all of it if no request was refused. -/
theorem ComesTo.size {s t : S} {p q : P} {l : List Dealing} {body : Except Fault Bytes}
    (h : ComesTo l body) (deals : Deals s p l t q) (rooms : ∀ d ∈ l, d.HasRoom) {content : Bytes}
    {e : Except Fault Unit} (hd : Delivers s content e) :
    (Fill.of l).size ≤ content.length ∧
      (l.filterMap Dealing.refusal? = [] → (Fill.of l).size = content.length) := by
  cases h with
  | reached solid readings refusals =>
    obtain ⟨rfl, rfl⟩ := deals.delivered (r := .ok ()) rooms hd solid readings
    have size := Fill.size_of readings rfl
    exact ⟨Nat.le_of_eq size, fun _ => size⟩
  | @broken pieces f solid readings refusals =>
    obtain ⟨rfl, rfl⟩ := deals.delivered (r := .error f) rooms hd solid readings
    have size := Fill.size_of readings rfl
    exact ⟨Nat.le_of_eq size, fun _ => size⟩
  | @refused pieces f solid readings refusals =>
    have front := deals.delivered_front rooms hd solid readings
    have whole : l.filterMap Dealing.reading? = pieces.map .ok ++ [] := by
      rw [readings, List.append_nil]
    have size := Fill.size_of whole rfl
    refine ⟨by rw [size]; exact front.length_le, ?_⟩
    intro none
    rw [none] at refusals
    cases refusals

/-! ## Result -/

/-- **A copy doubles its buffers.** Each read goes into the rest of the buffer in hand, or into the
probe when it is full; a further buffer is asked for at twice the capacity of the one in hand or
more, and for twice the bytes read so far; and a first buffer with room for all is the only one. -/
theorem copyBody_doubles [LawfulBufferPool P] (stream : Nat) (source : S) (length : Int) (pool : P)
    (defaultSize : Nat) :
    ∃ l last, Deals source pool l last (copyBody stream source length pool defaultSize).pool ∧
      (copyBody stream source length pool defaultSize).trace.toList =
        l.filterMap (Dealing.event? stream) ++ closeEvents stream last ∧
      Doubles (firstSize length defaultSize) l ∧
      ∀ content e, Delivers source content e → (Fill.of l).size ≤ content.length ∧
        (l.filterMap Dealing.refusal? = [] → (Fill.of l).size = content.length) := by
  obtain ⟨l, last, r, dealt, doubles⟩ := copyBody_obeys stream source length pool defaultSize
  exact ⟨l, last, dealt.deals, dealt.trace, doubles, fun content e hd =>
    dealt.ending.size dealt.deals (dealt.rooms inferInstance) hd⟩

/-- Ten bytes where three were promised, with a pool that has a buffer of five bytes left over. -/
theorem copyBody_doubles_usedBefore :
    LawfulBufferPool BestFit ∧
      Delivers (Source.chunked (text "0123456789") 4 false) (text "0123456789") (.ok ()) ∧
      ∃ (l : List Dealing) (last : Source), l.filterMap (Dealing.event? 0) ++ closeEvents 0 last =
          [.lease 3 1 5, .read 0 5 4, .read 0 1 1, .read 0 64 4, .lease 18 2 18, .release 1 5,
            .read 0 9 1, .read 0 8 0, .release 2 18, .close 0] ∧
        Doubles 3 l ∧ (Fill.of l).size ≤ 10 := by
  have delivers := Source.delivers_chunked 4 (by decide) false (text "0123456789")
  obtain ⟨l, last, -, trace, doubles, size⟩ :=
    copyBody_doubles 0 (Source.chunked (text "0123456789") 4 false) 3 usedBefore 0
  refine ⟨inferInstance, delivers, l, last, ?_, doubles, (size _ _ delivers).1⟩
  rw [← trace]
  decide +kernel

end RequestFlow
