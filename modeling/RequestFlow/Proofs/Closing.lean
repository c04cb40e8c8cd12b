import RequestFlow.Proofs.Dealings

/-!
# How a copy ends

However a copy ends, it has given back every buffer that it was lent when it closes its stream, and
it closes it once, as the last thing that it does to the stream and the pool.  What the close raises
is logged; the body, the fault and the pool are the same without it.

    a copy settles with its pool and then closes its stream                   (copyBody_settled)
    what the close raises changes nothing but the log                         (copyBody_closing)
-/

namespace RequestFlow

variable {S P : Type}

/-- A source whose close raises what is given. -/
structure Closing (S : Type) where
  source : S
  fault : Option Fault

instance [ByteSource S] : ByteSource (Closing S) where
  read s n :=
    let r := ByteSource.read s.source n
    ⟨r.result, ⟨r.rest, s.fault⟩, r.elapsed⟩
  closeFault s := s.fault
  left s := ByteSource.left s.source
  left_read s := ByteSource.left_read s.source
  length_read s := ByteSource.length_read s.source

/-- Every buffer that was lent was given back once, then the stream was closed, and only log lines
follow. -/
structure Settled [ByteSource S] [BufferPool P] (stream : Nat) (source : S) (pool : P)
    (copied : Copied P) (l : List Dealing) (last : S) (logs : List Event) : Prop where
  deals : Deals source pool l last copied.pool
  settles : Settles [] l
  trace : copied.trace.toList = l.filterMap (Dealing.event? stream) ++ .close stream :: logs
  once : .close stream ∉ l.filterMap (Dealing.event? stream)
  logs : ∀ e ∈ logs, e.isLog = true

/-- The copies differ in nothing but the log lines on the close. -/
structure SameButClose (stream : Nat) (copied other : Copied P) : Prop where
  body : other.body = copied.body
  pool : other.pool = copied.pool
  elapsed : other.elapsed = copied.elapsed
  trace : ∃ before logs logs', copied.trace.toList = before ++ .close stream :: logs ∧
    other.trace.toList = before ++ .close stream :: logs' ∧
    (∀ e ∈ logs, e.isLog = true) ∧ ∀ e ∈ logs', e.isLog = true

/-! ## Lemmas -/

theorem Dealing.event?_ne_close (stream s : Nat) (d : Dealing) :
    d.event? stream ≠ some (.close s) := by
  rcases d with ⟨room, f | b⟩ | ⟨size, f | b⟩ | b <;> simp [event?]

theorem isLog_of_mem_closeRecords {f : Option Fault} {e : Event}
    (h : e ∈ (closeRecords f).map Event.log) : e.isLog = true := by
  obtain ⟨r, -, rfl⟩ := List.mem_map.1 h
  rfl

theorem toList_close [ByteSource S] (stream : Nat) (s : S) (t : Trace) :
    ((closeEvents stream s).foldl Array.push t).toList =
      t.toList ++ .close stream :: (closeRecords (ByteSource.closeFault s)).map .log := by
  rw [List.foldl_push_eq_append', Array.toList_append]
  rfl

namespace Copying

/-- The same copy of a source whose close raises what is given. -/
def closing (fault : Option Fault) (c : Copying S P) : Copying (Closing S) P :=
  ⟨⟨c.source, fault⟩, c.pool, c.buffer, c.size, c.trace, c.elapsed⟩

theorem closing_enlarge [BufferPool P] (fault : Option Fault) (c : Copying S P) (more : Nat) :
    (c.closing fault).enlarge more = ((c.enlarge more).1, (c.enlarge more).2.closing fault) := by
  unfold enlarge
  simp only [closing]
  split <;> rfl

variable [ByteSource S] [BufferPool P]

omit [BufferPool P] in
theorem read_closing {fault : Option Fault} {c : Copying S P} {r : Except Fault Bytes} {rest : S}
    {t : Int} (h : ByteSource.read c.source c.room = ⟨r, rest, t⟩) :
    ByteSource.read (c.closing fault).source (c.closing fault).room = ⟨r, ⟨rest, fault⟩, t⟩ := by
  show Reading.mk (ByteSource.read c.source c.room).result
    (Closing.mk (ByteSource.read c.source c.room).rest fault)
    (ByteSource.read c.source c.room).elapsed = _
  rw [h]

/-- One turn of the loop. -/
theorem drain_eq (stream : Nat) (c : Copying S P) :
    c.drain stream =
      match ByteSource.read c.source c.room with
      | ⟨.error f, rest, t⟩ =>
        (.error f, c.noteRead rest t (.readFault stream c.room f.message))
      | ⟨.ok [], rest, t⟩ => (.ok (), c.noteRead rest t (.read stream c.room 0))
      | ⟨.ok (b :: bs), rest, t⟩ =>
        let read := c.noteRead rest t (.read stream c.room (b :: bs).length)
        if c.isFull then
          match read.enlarge (b :: bs).length with
          | (.error f, failed) => (.error f, failed)
          | (.ok (), larger) => drain stream (larger.append (b :: bs))
        else drain stream (read.append (b :: bs)) := by
  rw [drain]
  split
  · next hr => conv => rhs; rw [hr]
  · next hr => conv => rhs; rw [hr]
  · next hr =>
    conv => rhs; rw [hr]
    dsimp only
    split
    · split
      · next hg => rw [hg]
      · next hg => rw [hg]
    · rfl

/-- What a close would raise makes no difference to the loop. -/
theorem drain_closing (stream : Nat) (fault : Option Fault) (c : Copying S P) :
    (c.closing fault).drain stream =
      ((c.drain stream).1, (c.drain stream).2.closing fault) := by
  fun_induction Copying.drain stream c with
  | case1 c f rest t hr =>
    rw [drain_eq, read_closing hr]
    rfl
  | case2 c rest t hr =>
    rw [drain_eq, read_closing hr]
    rfl
  | case3 c b bs rest t hr decreases full read hf f failed hg =>
    -- the close takes no part in the lease
    have isFull : (c.closing fault).isFull = true := hf
    have refused : ((c.closing fault).noteRead ⟨rest, fault⟩ t
        (.read stream (c.closing fault).room (b :: bs).length)).enlarge (b :: bs).length =
          (.error f, failed.closing fault) :=
      (closing_enlarge fault read (b :: bs).length).trans (by rw [hg])
    rw [drain_eq, read_closing hr]
    dsimp only
    rw [if_pos isFull, refused]
  | case4 c b bs t full hf larger hr decreases read hg ih =>
    have isFull : (c.closing fault).isFull = true := hf
    have enlarged : ((c.closing fault).noteRead ⟨larger.source, fault⟩ t
        (.read stream (c.closing fault).room (b :: bs).length)).enlarge (b :: bs).length =
          (.ok (), larger.closing fault) :=
      (closing_enlarge fault read (b :: bs).length).trans (by rw [hg])
    rw [drain_eq, read_closing hr]
    dsimp only
    rw [if_pos isFull, enlarged]
    exact ih
  | case5 c b bs rest t hr decreases full read hf ih =>
    have part : ¬ (c.closing fault).isFull = true := hf
    rw [drain_eq, read_closing hr]
    dsimp only
    rw [if_neg part]
    exact ih

end Copying

section

variable [ByteSource S] [BufferPool P]

/-- A copy settles with its pool and then closes its stream, however it ends. -/
theorem copyBody_settled (stream : Nat) (source : S) (length : Int) (pool : P) (defaultSize : Nat) :
    ∃ l last logs, Settled stream source pool (copyBody stream source length pool defaultSize)
      l last logs := by
  obtain ⟨l, last, r, h⟩ := copyBody_dealt stream source length pool defaultSize
  refine ⟨l, last, _, h.deals, h.settles, h.trace, ?_, fun e he => isLog_of_mem_closeRecords he⟩
  intro closed
  obtain ⟨d, -, hd⟩ := List.mem_filterMap.1 closed
  exact d.event?_ne_close stream stream hd

/-- What the close raises changes nothing but the log. -/
theorem copyBody_closing (stream : Nat) (source : S) (length : Int) (pool : P) (defaultSize : Nat)
    (fault : Option Fault) :
    SameButClose stream (copyBody stream source length pool defaultSize)
      (copyBody stream (⟨source, fault⟩ : Closing S) length pool defaultSize) := by
  unfold copyBody
  dsimp only
  split
  · exact ⟨rfl, rfl, rfl, [], _, _, rfl, rfl, fun e => isLog_of_mem_closeRecords,
      fun e => isLog_of_mem_closeRecords⟩
  · next first after leased =>
    have same := Copying.drain_closing stream fault (⟨source, after, first, 0,
      #[.lease (firstSize length defaultSize) first.id first.capacity], 0⟩ : Copying S P)
    rw [Copying.closing] at same
    rw [same]
    exact ⟨rfl, rfl, rfl, _, _, _, toList_close .., toList_close ..,
      fun e => isLog_of_mem_closeRecords, fun e => isLog_of_mem_closeRecords⟩

end

end RequestFlow
