import RequestFlow.Buffer.BestFit
import RequestFlow.Proofs.Dealings

/-!
# The body is what the stream delivers

A stream delivers its content in pieces that are cut in any way, also in one that depends on the room
it is read into.  A copy gives just this content, whatever length was declared, whatever buffers the
pool lends and whatever they still hold.

    the readings of a copy are the content of its stream                       (Deals.delivered)
    the body is the content, and only a reading or a lease makes a copy fail   (copyBody_exact)
-/

namespace RequestFlow

variable {S P : Type} [ByteSource S] [BufferPool P]

/-- However it is read, the stream gives this content in pieces that are not empty, and then it is at
its end or raises the fault. -/
inductive Delivers : S → Bytes → Except Fault Unit → Prop
  | ended {s : S} (h : ∀ room, 0 < room → (ByteSource.read s room).result = .ok []) :
    Delivers s [] (.ok ())
  | broken {s : S} {f : Fault} (h : ∀ room, 0 < room → (ByteSource.read s room).result = .error f) :
    Delivers s [] (.error f)
  | piece {s : S} {content : Bytes} {e : Except Fault Unit} (piece rest : Nat → Bytes)
    (h : ∀ room, 0 < room → (ByteSource.read s room).result = .ok (piece room))
    (solid : ∀ room, 0 < room → piece room ≠ [])
    (cut : ∀ room, 0 < room → content = piece room ++ rest room)
    (later : ∀ room, 0 < room → Delivers (ByteSource.read s room).rest (rest room) e) :
    Delivers s content e

/-! ## Lemmas -/

omit [BufferPool P] in
/-- The last reading tells how the stream ends. -/
theorem Delivers.last {s : S} {content : Bytes} {e r : Except Fault Unit} (h : Delivers s content e)
    {room : Nat} (hr : 0 < room) (read : (ByteSource.read s room).result = r.map fun _ => []) :
    content = [] ∧ e = r := by
  cases h with
  | ended h =>
    rw [h room hr] at read
    cases r with
    | ok u => exact ⟨rfl, rfl⟩
    | error f => cases read
  | broken h =>
    rw [h room hr] at read
    cases r with
    | ok u => cases read
    | error f =>
      cases read
      exact ⟨rfl, rfl⟩
  | piece piece rest h solid cut later =>
    rw [h room hr] at read
    cases r with
    | ok u => exact absurd (Except.ok.inj read) (solid room hr)
    | error f => cases read

omit [BufferPool P] in
/-- A reading that is not empty takes its piece off the content. -/
theorem Delivers.next {s : S} {content p : Bytes} {e : Except Fault Unit} (h : Delivers s content e)
    {room : Nat} (hr : 0 < room) (read : (ByteSource.read s room).result = .ok p) (hp : p ≠ []) :
    ∃ rest, content = p ++ rest ∧ Delivers (ByteSource.read s room).rest rest e := by
  cases h with
  | ended h =>
    rw [h room hr] at read
    exact absurd (Except.ok.inj read).symm hp
  | broken h =>
    rw [h room hr] at read
    cases read
  | piece piece rest h solid cut later =>
    rw [h room hr] at read
    cases read
    exact ⟨rest room, cut room hr, later room hr⟩

/-- The readings up to the last one are the content. -/
theorem Deals.delivered {s t : S} {p q : P} {l : List Dealing} (h : Deals s p l t q)
    (rooms : ∀ d ∈ l, d.HasRoom) {content : Bytes} {e r : Except Fault Unit}
    (hd : Delivers s content e) {pieces : List Bytes} (solid : ∀ p ∈ pieces, p ≠ [])
    (readings : l.filterMap Dealing.reading? = pieces.map .ok ++ [r.map fun _ => []]) :
    content = pieces.flatten ∧ e = r := by
  induction h generalizing content pieces with
  | nil => simp at readings
  | @read s t last p p' l room result elapsed h rest ih =>
    have hr : 0 < room := rooms _ List.mem_cons_self
    have read : (ByteSource.read s room).result = result := by rw [h]
    have after : (ByteSource.read s room).rest = t := by rw [h]
    have readings : result :: l.filterMap Dealing.reading? =
      pieces.map .ok ++ [r.map fun _ => []] := readings
    cases pieces with
    -- the reading at hand is the last one, or else the first piece of the content
    | nil =>
      obtain ⟨rfl, -⟩ := List.cons.inj readings
      exact hd.last hr read
    | cons piece pieces =>
      obtain ⟨rfl, others⟩ := List.cons.inj readings
      obtain ⟨more, rfl, later⟩ := hd.next hr read (solid piece List.mem_cons_self)
      rw [after] at later
      obtain ⟨rfl, same⟩ := ih (fun d hd => rooms d (List.mem_cons_of_mem _ hd)) later
        (fun p hp => solid p (List.mem_cons_of_mem _ hp)) others
      exact ⟨rfl, same⟩
  | lease _ _ ih | release _ _ ih =>
    exact ih (fun d hd => rooms d (List.mem_cons_of_mem _ hd)) hd solid readings

/-- A copy that was refused no lease gives the content of its stream, or its fault. -/
theorem ComesTo.delivered {s t : S} {p q : P} {l : List Dealing} {body : Except Fault Bytes}
    (h : ComesTo l body) (deals : Deals s p l t q) (rooms : ∀ d ∈ l, d.HasRoom) {content : Bytes}
    {e : Except Fault Unit} (hd : Delivers s content e)
    (granted : l.filterMap Dealing.refusal? = []) : body = e.map fun _ => content := by
  cases h with
  | reached solid readings refusals =>
    obtain ⟨rfl, rfl⟩ := deals.delivered (r := .ok ()) rooms hd solid readings
    rfl
  | @broken pieces f solid readings refusals =>
    obtain ⟨rfl, rfl⟩ := deals.delivered (r := .error f) rooms hd solid readings
    rfl
  | refused solid readings refusals =>
    rw [granted] at refusals
    cases refusals

/-- A copy that gives a body was refused no lease. -/
theorem ComesTo.granted {l : List Dealing} {body : Except Fault Bytes} (h : ComesTo l body)
    (ok : body.isOk = true) : l.filterMap Dealing.refusal? = [] := by
  cases h with
  | reached solid readings refusals => exact refusals
  | broken | refused => cases ok

theorem Source.delivers_chunked (chunk : Nat) (hc : 0 < chunk) (fails : Bool) (content : Bytes) :
    Delivers (Source.chunked content chunk fails) content (.ok ()) := by
  induction hn : content.length using Nat.strongRecOn generalizing content with
  | _ n ih =>
    cases content with
    | nil => exact .ended fun room _ => by simp [ByteSource.read, Source.read, Source.chunkOf]
    | cons b bs =>
      have some (room : Nat) (hr : 0 < room) : 0 < min room chunk := by omega
      refine .piece (fun room => (b :: bs).take (min room chunk))
        (fun room => (b :: bs).drop (min room chunk)) (fun _ _ => rfl) ?_ ?_ ?_
      · intro room hr
        have := some room hr
        simp [List.take_eq_nil_iff]
        omega
      · intro room hr
        exact (List.take_append_drop _ _).symm
      · intro room hr
        have := some room hr
        refine ih _ ?_ _ rfl
        show ((b :: bs).drop (min room chunk)).length < n
        rw [List.length_drop, hn]
        rw [List.length_cons] at hn
        omega

/-! ## Result -/

/-- **A copy is exact.** It gives the content of its stream, or the fault that follows the content,
unless a lease is refused; and it fails with the fault of a reading or of a lease, and in no other
way. -/
theorem copyBody_exact [LawfulBufferPool P] (stream : Nat) (source : S) (length : Int) (pool : P)
    (defaultSize : Nat) :
    ∃ l last, Deals source pool l last (copyBody stream source length pool defaultSize).pool ∧
      (copyBody stream source length pool defaultSize).trace.toList =
        l.filterMap (Dealing.event? stream) ++ closeEvents stream last ∧
      (∀ d ∈ l, d.HasRoom) ∧ ComesTo l (copyBody stream source length pool defaultSize).body ∧
      ∀ content e, Delivers source content e → l.filterMap Dealing.refusal? = [] →
        (copyBody stream source length pool defaultSize).body = e.map fun _ => content := by
  obtain ⟨l, last, r, h⟩ := copyBody_dealt stream source length pool defaultSize
  have body := h.body inferInstance
  have rooms := h.rooms inferInstance
  rw [body]
  exact ⟨l, last, h.deals, h.trace, rooms, h.ending,
    fun content e hd granted => h.ending.delivered h.deals rooms hd granted⟩

/-- A pool with a buffer of five bytes that were used before. -/
def usedBefore : BestFit := BestFit.release { next := 2 } ⟨1, .replicate 5 255⟩

theorem copyBody_exact_usedBefore :
    LawfulBufferPool BestFit ∧
      Delivers (Source.chunked (text "0123456789") 4 false) (text "0123456789") (.ok ()) ∧
      ∃ (l : List Dealing) (last : Source), l.filterMap Dealing.refusal? = [] ∧
        l.filterMap (Dealing.event? 0) ++ closeEvents 0 last =
          [.lease 3 1 5, .read 0 5 4, .read 0 1 1, .read 0 64 4, .lease 18 2 18, .release 1 5,
            .read 0 9 1, .read 0 8 0, .release 2 18, .close 0] ∧
        (copyBody 0 (Source.chunked (text "0123456789") 4 false) 3 usedBefore 0).body =
          .ok (text "0123456789") := by
  have delivers := Source.delivers_chunked 4 (by decide) false (text "0123456789")
  obtain ⟨l, last, -, trace, -, ending, whole⟩ :=
    copyBody_exact 0 (Source.chunked (text "0123456789") 4 false) 3 usedBefore 0
  have granted := ending.granted (by decide +kernel)
  refine ⟨inferInstance, delivers, l, last, granted, ?_, whole _ _ delivers granted⟩
  rw [← trace]
  decide +kernel

end RequestFlow
