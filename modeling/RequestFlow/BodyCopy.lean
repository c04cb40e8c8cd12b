import RequestFlow.Buffer
import RequestFlow.Stream

/-!
# Copying a body

A stream is copied into a buffer lent by a pool.  The first buffer has the declared length, or a
default size when none is declared.  While the buffer has room the stream is read into the rest of
it; when it is full, a small probe of the stream tells whether more is to come, and only then is the
buffer exchanged for one of twice the bytes known so far.  Whatever happens, the buffer goes back to
the pool and the stream is closed, in this order.
-/

namespace RequestFlow

variable {S P : Type}

/-! ## Algorithm -/

/-- Room of the read that looks for the end of the stream. -/
def probeSize : Nat := 64

/-- A copy under way: the first `size` bytes of the buffer are the body so far. -/
structure Copying (S P : Type) where
  source : S
  pool : P
  buffer : Buffer
  size : Nat := 0
  trace : Trace := #[]
  elapsed : Int := 0
  deriving Repr

namespace Copying

def isFull (c : Copying S P) : Bool := c.size == c.buffer.capacity

/-- The room that the next read gets. -/
def room (c : Copying S P) : Nat :=
  if c.isFull then probeSize else c.buffer.capacity - c.size

/-- The copy after a read, with its event. -/
def noteRead (c : Copying S P) (rest : S) (elapsed : Int) (e : Event) : Copying S P :=
  { c with source := rest, elapsed := c.elapsed + elapsed, trace := c.trace.push e }

/-- Exchanges a full buffer for one with room for `more` bytes and as much again. -/
def enlarge [BufferPool P] (c : Copying S P) (more : Nat) : Except Fault Unit × Copying S P :=
  let wanted := (c.size + more) * 2
  let old := c.buffer
  match BufferPool.grow c.pool old wanted c.size with
  | (.error f, pool) => (.error f, { c with pool })
  | (.ok larger, pool) =>
    (.ok (), { c with
      pool
      buffer := larger
      trace := (c.trace.push (.lease wanted larger.id larger.capacity)).push
        (.release old.id old.capacity) })

/-- Adds bytes behind those that are there. -/
def append (c : Copying S P) (bytes : Bytes) : Copying S P :=
  { c with buffer := c.buffer.write c.size bytes, size := c.size + bytes.length }

/-- Reads the stream to its end, or to the first fault. -/
def drain [ByteSource S] [BufferPool P] (stream : Nat) (c : Copying S P) :
    Except Fault Unit × Copying S P :=
  match hr : ByteSource.read c.source c.room with
  | ⟨.error f, rest, t⟩ =>
    (.error f, c.noteRead rest t (.readFault stream c.room f.message))
  | ⟨.ok [], rest, t⟩ => (.ok (), c.noteRead rest t (.read stream c.room 0))
  | ⟨.ok (b :: bs), rest, t⟩ =>
    have _decreases : ByteSource.left rest < ByteSource.left c.source := by
      have h := ByteSource.left_read c.source c.room (b :: bs) (by rw [hr])
      rw [hr] at h
      simp only [List.length_cons] at h
      omega
    let full := c.isFull
    let read := c.noteRead rest t (.read stream c.room (b :: bs).length)
    if full then
      match hg : read.enlarge (b :: bs).length with
      | (.error f, failed) => (.error f, failed)
      | (.ok (), larger) =>
        have _same : larger.source = rest := by
          unfold enlarge at hg
          simp only at hg
          split at hg
          · cases hg
          · cases hg
            rfl
        drain stream (larger.append (b :: bs))
    else drain stream (read.append (b :: bs))
termination_by ByteSource.left c.source
decreasing_by
  · rw [show (larger.append (b :: bs)).source = larger.source from rfl, _same]
    exact _decreases
  · exact _decreases

end Copying

/-- What copying a body came to. -/
structure Copied (P : Type) where
  body : Except Fault Bytes
  pool : P
  trace : Trace
  elapsed : Int := 0
  deriving Repr

/-- The size of the first buffer. -/
def firstSize (length : Int) (defaultSize : Nat) : Nat :=
  if 0 < length then length.toNat else defaultSize

/-- Copies a body from the given stream; `length` is the declared length, negative when unknown. -/
def copyBody [ByteSource S] [BufferPool P] (stream : Nat) (source : S) (length : Int) (pool : P)
    (defaultSize : Nat) : Copied P :=
  let wanted := firstSize length defaultSize
  match BufferPool.lease pool wanted with
  | (.error f, pool) => ⟨.error f, pool, (closeEvents stream source).toArray, 0⟩
  | (.ok buffer, pool) =>
    let start : Copying S P :=
      { source, pool, buffer, trace := #[.lease wanted buffer.id buffer.capacity] }
    let (ended, c) := start.drain stream
    let body := ended.map fun () => c.buffer.front c.size
    let trace := c.trace.push (.release c.buffer.id c.buffer.capacity)
    ⟨body, BufferPool.release c.pool c.buffer,
      (closeEvents stream c.source).foldl Array.push trace, c.elapsed⟩

end RequestFlow
