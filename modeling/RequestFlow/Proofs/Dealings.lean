import RequestFlow.BodyCopy

/-!
# What a copy asks of its stream and its pool

A copy is told here as the list of its calls to the stream and the pool, with their answers, up to
the close of the stream.  The list is what the trace shows, it gives back every buffer that it was
lent, and the body is what its readings gave.

    the dealings of the loop, turn by turn                                     (drain_drained)
    the dealings of a copy                                                     (copyBody_dealt)
-/

namespace RequestFlow

inductive Dealing
  | read (room : Nat) (result : Except Fault Bytes)
  | lease (size : Nat) (result : Except Fault Buffer)
  | release (b : Buffer)

namespace Dealing

def reading? : Dealing → Option (Except Fault Bytes)
  | read _ result => some result
  | _ => none

/-- The fault of a lease that failed. -/
def refusal? : Dealing → Option Fault
  | lease _ (.error f) => some f
  | _ => none

/-- How the trace shows it; a lease that failed leaves no event. -/
def event? (stream : Nat) : Dealing → Option Event
  | read room (.ok bytes) => some (.read stream room bytes.length)
  | read room (.error f) => some (.readFault stream room f.message)
  | lease size (.ok b) => some (.lease size b.id b.capacity)
  | lease _ (.error _) => none
  | release b => some (.release b.id b.capacity)

/-- The stream is asked for at least one byte. -/
def HasRoom : Dealing → Prop
  | read room _ => 0 < room
  | _ => True

end Dealing

/-- The stream and the pool give these answers, and are left so. -/
inductive Deals {S P : Type} [ByteSource S] [BufferPool P] : S → P → List Dealing → S → P → Prop
  | nil {s : S} {p : P} : Deals s p [] s p
  | read {s t last : S} {p p' : P} {l : List Dealing} {room : Nat} {result : Except Fault Bytes}
    {elapsed : Int} (h : ByteSource.read s room = ⟨result, t, elapsed⟩) (rest : Deals t p l last p') :
    Deals s p (.read room result :: l) last p'
  | lease {s last : S} {p q p' : P} {l : List Dealing} {size : Nat} {result : Except Fault Buffer}
    (h : BufferPool.lease p size = (result, q)) (rest : Deals s q l last p') :
    Deals s p (.lease size result :: l) last p'
  | release {s last : S} {p p' : P} {l : List Dealing} (b : Buffer)
    (rest : Deals s (BufferPool.release p b) l last p') : Deals s p (.release b :: l) last p'

/-- The nanoseconds that the readings took. -/
def spent {S : Type} [ByteSource S] : S → List Dealing → Int
  | _, [] => 0
  | s, .read room _ :: l =>
    (ByteSource.read s room).elapsed + spent (ByteSource.read s room).rest l
  | s, .lease _ _ :: l | s, .release _ :: l => spent s l

/-- What the readings came to.  They gave pieces that are not empty, and then the stream was at its
end, or a read failed, or a lease did. -/
inductive ComesTo (l : List Dealing) : Except Fault Bytes → Prop
  | reached {pieces : List Bytes} (solid : ∀ p ∈ pieces, p ≠ [])
    (readings : l.filterMap Dealing.reading? = pieces.map .ok ++ [.ok []])
    (refusals : l.filterMap Dealing.refusal? = []) : ComesTo l (.ok pieces.flatten)
  | broken {pieces : List Bytes} {f : Fault} (solid : ∀ p ∈ pieces, p ≠ [])
    (readings : l.filterMap Dealing.reading? = pieces.map .ok ++ [.error f])
    (refusals : l.filterMap Dealing.refusal? = []) : ComesTo l (.error f)
  | refused {pieces : List Bytes} {f : Fault} (solid : ∀ p ∈ pieces, p ≠ [])
    (readings : l.filterMap Dealing.reading? = pieces.map .ok)
    (refusals : l.filterMap Dealing.refusal? = [f]) : ComesTo l (.error f)

namespace Buffer

/-- What a trace tells of a buffer. -/
def tag (b : Buffer) : Nat × Nat := (b.id, b.capacity)

theorem tag_write (b : Buffer) (i : Nat) (d : Bytes) : (b.write i d).tag = b.tag := by
  simp only [tag, capacity_write]
  rfl

end Buffer

/-- With these buffers lent out, each release gives back one of them, and in the end none is out. -/
def Settles : List (Nat × Nat) → List Dealing → Prop
  | out, [] => out = []
  | out, .lease _ (.ok b) :: l => Settles (b.tag :: out) l
  | out, .release b :: l => b.tag ∈ out ∧ Settles (out.erase b.tag) l
  | out, .lease _ (.error _) :: l | out, .read _ _ :: l => Settles out l

/-! ## Lemmas -/

variable {S P : Type} [ByteSource S] [BufferPool P]

theorem Deals.append {s t u : S} {p q r : P} {l l' : List Dealing} (h : Deals s p l t q)
    (h' : Deals t q l' u r) : Deals s p (l ++ l') u r := by
  induction h with
  | nil => exact h'
  | read hr _ ih => exact .read hr (ih h')
  | lease hl _ ih => exact .lease hl (ih h')
  | release b _ ih => exact .release b (ih h')

theorem Deals.spent_append {s t : S} {p q : P} {l : List Dealing} (h : Deals s p l t q)
    (l' : List Dealing) : spent s (l ++ l') = spent s l + spent t l' := by
  induction h with
  | nil => exact (Int.zero_add _).symm
  | read hr _ ih =>
    simp only [List.cons_append, spent, hr, ih]
    exact (Int.add_assoc _ _ _).symm
  | lease _ _ ih | release _ _ ih => exact ih

theorem ComesTo.cons {l l' : List Dealing} {r : Except Fault Bytes} (h : ComesTo l r) {b : Bytes}
    (solid : b ≠ [])
    (readings : l'.filterMap Dealing.reading? = .ok b :: l.filterMap Dealing.reading?)
    (refusals : l'.filterMap Dealing.refusal? = l.filterMap Dealing.refusal?) :
    ComesTo l' (r.map (b ++ ·)) := by
  cases h with
  | @reached pieces hp hr hf =>
    have readings : l'.filterMap Dealing.reading? = (b :: pieces).map .ok ++ [.ok []] := by
      rw [readings, hr]
      rfl
    have ending : ComesTo l' (.ok (b :: pieces).flatten) :=
      .reached (List.forall_mem_cons.2 ⟨solid, hp⟩) readings (refusals.trans hf)
    exact ending
  | @broken pieces f hp hr hf =>
    have readings : l'.filterMap Dealing.reading? = (b :: pieces).map .ok ++ [.error f] := by
      rw [readings, hr]
      rfl
    exact .broken (List.forall_mem_cons.2 ⟨solid, hp⟩) readings (refusals.trans hf)
  | @refused pieces f hp hr hf =>
    have readings : l'.filterMap Dealing.reading? = (b :: pieces).map .ok := by
      rw [readings, hr]
      rfl
    exact .refused (List.forall_mem_cons.2 ⟨solid, hp⟩) readings (refusals.trans hf)

namespace Copying

/-- What the loop of a copy does from one moment to its end, in terms of its dealings. -/
structure Drained (stream : Nat) (c : Copying S P) (l : List Dealing) (r : Except Fault Bytes)
    (ended : Except Fault Unit) (c' : Copying S P) : Prop where
  deals : Deals c.source c.pool l c'.source c'.pool
  trace : c'.trace.toList = c.trace.toList ++ l.filterMap (Dealing.event? stream)
  elapsed : c'.elapsed = c.elapsed + spent c.source l
  ending : ComesTo l r
  ended : ended = r.map fun _ => ()
  settles : Settles [c.buffer.tag] (l ++ [.release c'.buffer])
  rooms : LawfulBufferPool P → c.size ≤ c.buffer.capacity → ∀ d ∈ l, d.HasRoom
  body : LawfulBufferPool P → c.size ≤ c.buffer.capacity → ∀ b, r = .ok b →
    c'.buffer.front c'.size = c.buffer.front c.size ++ b

omit [ByteSource S] in
theorem enlarge_error {c failed : Copying S P} {more : Nat} {f : Fault}
    (h : c.enlarge more = (.error f, failed)) :
    ∃ pool, BufferPool.lease c.pool ((c.size + more) * 2) = (.error f, pool) ∧
      failed = { c with pool } := by
  unfold enlarge BufferPool.grow at h
  dsimp only at h
  split at h
  · next grown =>
    split at grown
    · next leased =>
      cases grown
      cases h
      exact ⟨_, leased, rfl⟩
    · cases grown
  · cases h

omit [ByteSource S] in
/-- The larger buffer is leased before the other is given back. -/
theorem enlarge_ok {c larger : Copying S P} {more : Nat} (h : c.enlarge more = (.ok (), larger)) :
    ∃ lent pool, BufferPool.lease c.pool ((c.size + more) * 2) = (.ok lent, pool) ∧
      larger = { c with
        pool := BufferPool.release pool c.buffer
        buffer := lent.write 0 (c.buffer.front c.size)
        trace := (c.trace.push (.lease ((c.size + more) * 2) lent.id lent.capacity)).push
          (.release c.buffer.id c.buffer.capacity) } := by
  unfold enlarge BufferPool.grow at h
  dsimp only at h
  split at h
  · cases h
  · next grown =>
    split at grown
    · cases grown
    · next lent pool leased =>
      cases grown
      cases h
      refine ⟨lent, pool, leased, ?_⟩
      rw [Buffer.capacity_write]
      rfl

omit [ByteSource S] [BufferPool P] in
theorem room_pos (c : Copying S P) (h : c.size ≤ c.buffer.capacity) : 0 < c.room := by
  unfold room
  split
  · exact Nat.succ_pos _
  · next part =>
    have : c.size ≠ c.buffer.capacity := by simpa [isFull] using part
    omega

section

variable {stream : Nat} {c c₁ c' : Copying S P} {l : List Dealing} {r : Except Fault Bytes}
  {ended : Except Fault Unit}

/-- One turn of the loop before the others: it reads a piece and puts it behind what is there. -/
theorem Drained.extend (h : Drained stream c₁ l r ended c') (turn : List Dealing) {piece : Bytes}
    (solid : piece ≠ []) (deals : Deals c.source c.pool turn c₁.source c₁.pool)
    (trace : c₁.trace.toList = c.trace.toList ++ turn.filterMap (Dealing.event? stream))
    (elapsed : c₁.elapsed = c.elapsed + spent c.source turn)
    (readings : turn.filterMap Dealing.reading? = [.ok piece])
    (refusals : turn.filterMap Dealing.refusal? = [])
    (settles : ∀ k, Settles [c₁.buffer.tag] k → Settles [c.buffer.tag] (turn ++ k))
    (rooms : c.size ≤ c.buffer.capacity → ∀ d ∈ turn, d.HasRoom)
    (body : LawfulBufferPool P → c.size ≤ c.buffer.capacity → c₁.size ≤ c₁.buffer.capacity ∧
      c₁.buffer.front c₁.size = c.buffer.front c.size ++ piece) :
    Drained stream c (turn ++ l) (r.map (piece ++ ·)) ended c' := by
  refine ⟨deals.append h.deals, ?_, ?_, ?_, ?_, ?_, ?_, ?_⟩
  · rw [h.trace, trace, List.filterMap_append, List.append_assoc]
  · rw [h.elapsed, elapsed, deals.spent_append, Int.add_assoc]
  · refine h.ending.cons solid ?_ ?_
    · rw [List.filterMap_append, readings]
      rfl
    · rw [List.filterMap_append, refusals]
      rfl
  · rw [h.ended]
    cases r <;> rfl
  · rw [List.append_assoc]
    exact settles _ h.settles
  · intro lawful fits d hd
    rcases List.mem_append.1 hd with hd | hd
    · exact rooms fits d hd
    · exact h.rooms lawful (body lawful fits).1 d hd
  · intro lawful fits b hb
    cases r with
    | error f => cases hb
    | ok more =>
      cases hb
      obtain ⟨fits', front⟩ := body lawful fits
      rw [h.body lawful fits' more rfl, front, List.append_assoc]

omit [ByteSource S] [BufferPool P] in
/-- A piece that was read into the room left in the buffer. -/
theorem append_body {piece : Bytes} (fits : c.size + piece.length ≤ c.buffer.capacity) :
    (c.append piece).size ≤ (c.append piece).buffer.capacity ∧
      (c.append piece).buffer.front (c.append piece).size = c.buffer.front c.size ++ piece := by
  constructor
  · show c.size + piece.length ≤ (c.buffer.write c.size piece).capacity
    rw [Buffer.capacity_write]
    exact fits
  · exact Buffer.front_write c.buffer c.size piece fits

omit [ByteSource S] [BufferPool P] in
/-- A piece that was read when the buffer was full, behind the bytes that moved to the larger one. -/
theorem moved_body {larger : Copying S P} {lent : Buffer} {piece : Bytes}
    (fits : c.size ≤ c.buffer.capacity) (large : (c.size + piece.length) * 2 ≤ lent.capacity)
    (buffer : larger.buffer = lent.write 0 (c.buffer.front c.size)) (size : larger.size = c.size) :
    (larger.append piece).size ≤ (larger.append piece).buffer.capacity ∧
      (larger.append piece).buffer.front (larger.append piece).size =
        c.buffer.front c.size ++ piece := by
  have moved : larger.buffer.front larger.size = c.buffer.front c.size := by
    rw [buffer, size, Buffer.front_takeOver _ _ fits (by omega)]
  have capacity : larger.buffer.capacity = lent.capacity := by rw [buffer, Buffer.capacity_write]
  rw [← moved]
  exact append_body (by omega)

/-- A read that fails. -/
theorem drained_error {f : Fault} {rest : S} {t : Int}
    (hr : ByteSource.read c.source c.room = ⟨.error f, rest, t⟩) :
    Drained stream c [.read c.room (.error f)] (.error f) (.error f)
      (c.noteRead rest t (.readFault stream c.room f.message)) := by
  refine ⟨.read hr .nil, ?_, ?_, ?_, rfl, ?_, ?_, ?_⟩
  · simp [noteRead, Dealing.event?]
  · simp [noteRead, spent, hr]
  · exact @ComesTo.broken _ [] f (by simp) rfl rfl
  · simp [Settles, noteRead]
  · intro lawful fits d hd
    rw [List.mem_singleton.1 hd]
    exact c.room_pos fits
  · intro lawful fits b hb
    cases hb

/-- The end of the stream. -/
theorem drained_end {rest : S} {t : Int}
    (hr : ByteSource.read c.source c.room = ⟨.ok [], rest, t⟩) :
    Drained stream c [.read c.room (.ok [])] (.ok []) (.ok ())
      (c.noteRead rest t (.read stream c.room 0)) := by
  refine ⟨.read hr .nil, ?_, ?_, ?_, rfl, ?_, ?_, ?_⟩
  · simp [noteRead, Dealing.event?]
  · simp [noteRead, spent, hr]
  · exact @ComesTo.reached _ [] (by simp) rfl rfl
  · simp [Settles, noteRead]
  · intro lawful fits d hd
    rw [List.mem_singleton.1 hd]
    exact c.room_pos fits
  · intro lawful fits b hb
    cases hb
    exact (List.append_nil _).symm

/-- A lease that fails after a read. -/
theorem drained_refused {piece : Bytes} {f : Fault} {rest : S} {t : Int} {pool : P}
    (hr : ByteSource.read c.source c.room = ⟨.ok piece, rest, t⟩) (solid : piece ≠ [])
    (leased : BufferPool.lease c.pool ((c.size + piece.length) * 2) = (.error f, pool)) :
    Drained stream c
      [.read c.room (.ok piece), .lease ((c.size + piece.length) * 2) (.error f)] (.error f)
      (.error f) { c.noteRead rest t (.read stream c.room piece.length) with pool } := by
  refine ⟨.read hr (.lease leased .nil), ?_, ?_, ?_, rfl, ?_, ?_, ?_⟩
  · simp [noteRead, Dealing.event?]
  · simp [noteRead, spent, hr]
  · exact @ComesTo.refused _ [piece] f (by simpa using solid) rfl rfl
  · simp [Settles, noteRead]
  · intro lawful fits d hd
    simp only [List.mem_cons, List.not_mem_nil, or_false] at hd
    rcases hd with rfl | rfl
    · exact c.room_pos fits
    · trivial
  · intro lawful fits b hb
    cases hb

/-- A piece that fits. -/
theorem Drained.fitting {piece : Bytes} {rest : S} {t : Int}
    (hr : ByteSource.read c.source c.room = ⟨.ok piece, rest, t⟩) (solid : piece ≠ [])
    (part : c.isFull = false)
    (h : Drained stream
      ((c.noteRead rest t (.read stream c.room piece.length)).append piece) l r ended c') :
    Drained stream c ([.read c.room (.ok piece)] ++ l) (r.map (piece ++ ·)) ended c' := by
  refine h.extend _ solid (.read hr .nil) ?_ ?_ rfl rfl ?_ ?_ ?_
  · simp [append, noteRead, Dealing.event?]
  · simp [append, noteRead, spent, hr]
  · intro k hk
    rw [append, Buffer.tag_write] at hk
    exact hk
  · intro fits d hd
    rw [List.mem_singleton.1 hd]
    exact c.room_pos fits
  · intro lawful fits
    have given := ByteSource.length_read c.source c.room piece (by rw [hr])
    rw [room, if_neg (by simp [part])] at given
    exact append_body (c := c.noteRead rest t (.read stream c.room piece.length))
      (show c.size + piece.length ≤ c.buffer.capacity by omega)

/-- A piece that needs a larger buffer. -/
theorem Drained.enlarging {piece : Bytes} {larger : Copying S P} {lent : Buffer} {t : Int} {pool : P}
    (hr : ByteSource.read c.source c.room = ⟨.ok piece, larger.source, t⟩) (solid : piece ≠ [])
    (leased : BufferPool.lease c.pool ((c.size + piece.length) * 2) = (.ok lent, pool))
    (hp : larger.pool = BufferPool.release pool c.buffer)
    (hb : larger.buffer = lent.write 0 (c.buffer.front c.size)) (hs : larger.size = c.size)
    (ht : larger.trace = ((c.trace.push (.read stream c.room piece.length)).push
      (.lease ((c.size + piece.length) * 2) lent.id lent.capacity)).push
        (.release c.buffer.id c.buffer.capacity))
    (he : larger.elapsed = c.elapsed + t)
    (h : Drained stream (larger.append piece) l r ended c') :
    Drained stream c ([.read c.room (.ok piece), .lease ((c.size + piece.length) * 2) (.ok lent),
      .release c.buffer] ++ l) (r.map (piece ++ ·)) ended c' := by
  refine h.extend _ solid (.read hr (.lease leased (.release _ ?_))) ?_ ?_ rfl rfl ?_ ?_ ?_
  · show Deals larger.source _ _ larger.source larger.pool
    rw [hp]
    exact .nil
  · simp [append, ht, Dealing.event?]
  · simp [append, he, spent, hr]
  · intro k hk
    rw [append, Buffer.tag_write, hb, Buffer.tag_write] at hk
    -- both buffers are out now, and a pool without laws may have given them the same tag
    have left : [lent.tag, c.buffer.tag].erase c.buffer.tag = [lent.tag] := by
      by_cases same : lent.tag = c.buffer.tag
      · simp [same]
      · simp [same]
    refine ⟨List.mem_cons_of_mem _ List.mem_cons_self, ?_⟩
    rw [left]
    exact hk
  · intro fits d hd
    simp only [List.mem_cons, List.not_mem_nil, or_false] at hd
    rcases hd with rfl | rfl | rfl
    · exact c.room_pos fits
    · trivial
    · trivial
  · intro lawful fits
    have large := lawful.le_capacity c.pool _ lent (by rw [leased])
    exact moved_body fits large hb hs

end

/-- The loop of a copy, in terms of its dealings. -/
theorem drain_drained (stream : Nat) (c : Copying S P) :
    ∃ l r, Drained stream c l r (c.drain stream).1 (c.drain stream).2 := by
  fun_induction Copying.drain stream c with
  | case1 c f rest t hr => exact ⟨_, _, drained_error hr⟩
  | case2 c rest t hr => exact ⟨_, _, drained_end hr⟩
  | case3 c b bs rest t hr decreases full read hf f failed hg =>
    obtain ⟨pool, leased, rfl⟩ := enlarge_error hg
    exact ⟨_, _, drained_refused hr (List.cons_ne_nil b bs) leased⟩
  | case4 c b bs t full hf larger hr decreases read hg ih =>
    obtain ⟨lent, pool, leased, same⟩ := enlarge_ok hg
    obtain ⟨l, r, h⟩ := ih
    have hp := congrArg Copying.pool same
    have hb := congrArg Copying.buffer same
    have hs := congrArg Copying.size same
    have ht := congrArg Copying.trace same
    have he := congrArg Copying.elapsed same
    exact ⟨_, _, Drained.enlarging hr (List.cons_ne_nil b bs) leased hp hb hs ht he h⟩
  | case5 c b bs rest t hr decreases full read hf ih =>
    obtain ⟨l, r, h⟩ := ih
    exact ⟨_, _, Drained.fitting hr (List.cons_ne_nil b bs) (by simpa using hf) h⟩

end Copying

/-! ## The whole copy -/

/-- The dealings after the first lease and before the last release, which bring no reading. -/
theorem ComesTo.wrap {l : List Dealing} {r : Except Fault Bytes} (h : ComesTo l r) (size : Nat)
    (first last : Buffer) : ComesTo (.lease size (.ok first) :: (l ++ [.release last])) r := by
  have readings : (Dealing.lease size (.ok first) :: (l ++ [.release last])).filterMap
      Dealing.reading? = l.filterMap Dealing.reading? := by
    simp [List.filterMap_cons, Dealing.reading?]
  have refusals : (Dealing.lease size (.ok first) :: (l ++ [.release last])).filterMap
      Dealing.refusal? = l.filterMap Dealing.refusal? := by
    simp [List.filterMap_cons, Dealing.refusal?]
  cases h with
  | reached solid hr hf => exact .reached solid (readings.trans hr) (refusals.trans hf)
  | broken solid hr hf => exact .broken solid (readings.trans hr) (refusals.trans hf)
  | refused solid hr hf => exact .refused solid (readings.trans hr) (refusals.trans hf)

/-- What a copy does up to the close, in terms of its dealings. -/
structure Dealt (stream : Nat) (source : S) (pool : P) (l : List Dealing) (last : S)
    (r : Except Fault Bytes) (copied : Copied P) : Prop where
  deals : Deals source pool l last copied.pool
  trace : copied.trace.toList = l.filterMap (Dealing.event? stream) ++ closeEvents stream last
  elapsed : copied.elapsed = spent source l
  ending : ComesTo l r
  ended : (copied.body.map fun _ => ()) = r.map fun _ => ()
  settles : Settles [] l
  rooms : LawfulBufferPool P → ∀ d ∈ l, d.HasRoom
  body : LawfulBufferPool P → copied.body = r

/-- The first lease fails. -/
theorem dealt_refused {stream : Nat} {source : S} {pool after : P} {size : Nat} {f : Fault}
    (leased : BufferPool.lease pool size = (.error f, after)) :
    Dealt stream source pool [.lease size (.error f)] source (.error f)
      ⟨.error f, after, (closeEvents stream source).toArray, 0⟩ := by
  refine ⟨.lease leased .nil, rfl, rfl, ?_, rfl, rfl, ?_, fun _ => rfl⟩
  · exact @ComesTo.refused _ [] f (by simp) rfl rfl
  · intro lawful d hd
    rw [List.mem_singleton.1 hd]
    trivial

/-- The first lease succeeds, and the loop follows it. -/
theorem Copying.Drained.dealt {stream : Nat} {source : S} {pool after : P} {size : Nat}
    {first : Buffer} {l : List Dealing} {r : Except Fault Bytes} {ended : Except Fault Unit}
    {c : Copying S P} (leased : BufferPool.lease pool size = (.ok first, after))
    (h : Drained stream ⟨source, after, first, 0, #[.lease size first.id first.capacity], 0⟩ l r
      ended c) :
    Dealt stream source pool (.lease size (.ok first) :: (l ++ [.release c.buffer])) c.source r
      ⟨ended.map fun () => c.buffer.front c.size, BufferPool.release c.pool c.buffer,
        (closeEvents stream c.source).foldl Array.push
          (c.trace.push (.release c.buffer.id c.buffer.capacity)), c.elapsed⟩ := by
  refine ⟨.lease leased (h.deals.append (.release _ .nil)), ?_, ?_, h.ending.wrap size _ _, ?_,
    h.settles, ?_, ?_⟩
  · simp [List.foldl_push_eq_append', h.trace, Dealing.event?]
  · simp [spent, h.deals.spent_append, h.elapsed]
  · rw [h.ended]
    cases r <;> rfl
  · intro lawful d hd
    rcases List.mem_cons.1 hd with rfl | hd
    · trivial
    · rcases List.mem_append.1 hd with hd | hd
      · exact h.rooms lawful (Nat.zero_le _) d hd
      · rw [List.mem_singleton.1 hd]
        trivial
  · intro lawful
    show ended.map _ = r
    rw [h.ended]
    cases r with
    | error f => rfl
    | ok b =>
      have front := h.body lawful (Nat.zero_le _) b rfl
      show Except.ok (c.buffer.front c.size) = _
      rw [front]
      rfl

/-- A copy, in terms of its dealings. -/
theorem copyBody_dealt (stream : Nat) (source : S) (length : Int) (pool : P) (defaultSize : Nat) :
    ∃ l last r, Dealt stream source pool l last r
      (copyBody stream source length pool defaultSize) := by
  unfold copyBody
  dsimp only
  split
  · next f after leased => exact ⟨_, _, _, dealt_refused leased⟩
  · next first after leased =>
    obtain ⟨l, r, h⟩ := Copying.drain_drained stream ⟨source, after, first, 0,
      #[.lease (firstSize length defaultSize) first.id first.capacity], 0⟩
    exact ⟨_, _, _, h.dealt leased⟩

end RequestFlow
