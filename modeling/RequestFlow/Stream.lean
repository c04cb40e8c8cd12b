import RequestFlow.Event

/-!
# Body streams

A byte source is read into a given room and gives at most that many bytes; it gives none only at its
end, and a read may fail or take time.  `ByteSource` asks for a bound on the bytes still to come,
which every read lowers by what it gives.  `Source` has the sources of the library: one that serves
its content in chunks, one that fails after it, and one that follows a script.
-/

namespace RequestFlow

/-! ## Algorithm -/

/-- What a read gave, the source after it, and the nanoseconds it took. -/
structure Reading (S : Type) where
  result : Except Fault Bytes
  rest : S
  elapsed : Int := 0
  deriving Repr

class ByteSource (S : Type) where
  read : S → Nat → Reading S
  /-- The fault that closing raises, if any. -/
  closeFault : S → Option Fault
  /-- A bound on the bytes still to come. -/
  left : S → Nat
  left_read : ∀ s n b, (read s n).result = .ok b → left (read s n).rest + b.length ≤ left s
  length_read : ∀ s n b, (read s n).result = .ok b → b.length ≤ n

/-- One thing that a scripted source does. -/
inductive StreamItem
  | pause (nanoseconds : Int)
  | fault (message : Bytes)
  | bytes (content : Bytes)
  deriving DecidableEq, Repr

inductive Source
  | chunked (content : Bytes) (chunk : Nat) (closeFails : Bool)
  | failing (content : Bytes) (chunk : Nat)
  | scripted (items : List StreamItem) (closeFails : Bool)
  deriving DecidableEq, Repr

namespace StreamItem

/-- A read from a script: pauses pass, and bytes that do not fit stay in front. -/
def read : List StreamItem → Nat → Reading (List StreamItem)
  | [], _ => ⟨.ok [], [], 0⟩
  | pause t :: rest, n =>
    let r := read rest n
    ⟨r.result, r.rest, t + r.elapsed⟩
  | fault message :: rest, _ => ⟨.error (.runtime message), rest, 0⟩
  | bytes content :: rest, n =>
    if content.length ≤ n then ⟨.ok content, rest, 0⟩
    else ⟨.ok (content.take n), bytes (content.drop n) :: rest, 0⟩

def left : List StreamItem → Nat
  | [] => 0
  | bytes content :: rest => content.length + left rest
  | _ :: rest => left rest

theorem left_read (items : List StreamItem) (n : Nat) (b : Bytes)
    (h : (read items n).result = .ok b) : left (read items n).rest + b.length ≤ left items := by
  fun_induction read items n with
  | case1 n => cases h; simp [left]
  | case2 n t rest r ih => exact ih h
  | case3 n message rest => cases h
  | case4 n content rest hc => cases h; simp [left]; omega
  | case5 n content rest hc => cases h; simp [left]; omega

theorem length_read (items : List StreamItem) (n : Nat) (b : Bytes)
    (h : (read items n).result = .ok b) : b.length ≤ n := by
  fun_induction read items n with
  | case1 n => cases h; simp
  | case2 n t rest r ih => exact ih h
  | case3 n message rest => cases h
  | case4 n content rest hc => cases h; exact hc
  | case5 n content rest hc => cases h; rw [List.length_take]; omega

end StreamItem

namespace Source

/-- The next chunk of some content, and what is left of it. -/
def chunkOf (content : Bytes) (chunk n : Nat) : Bytes × Bytes :=
  (content.take (min n chunk), content.drop (min n chunk))

def read : Source → Nat → Reading Source
  | chunked content chunk fails, n =>
    let c := chunkOf content chunk n
    ⟨.ok c.1, chunked c.2 chunk fails, 0⟩
  | failing content chunk, n =>
    if content.isEmpty then
      ⟨.error (.runtime (text "connection reset by peer")), failing content chunk, 0⟩
    else
      let c := chunkOf content chunk n
      ⟨.ok c.1, failing c.2 chunk, 0⟩
  | scripted items fails, n =>
    let r := StreamItem.read items n
    ⟨r.result, scripted r.rest fails, r.elapsed⟩

def closeFault : Source → Option Fault
  | chunked _ _ fails | scripted _ fails =>
    if fails then some (.runtime (text "close failed")) else none
  | failing _ _ => none

def left : Source → Nat
  | chunked content _ _ | failing content _ => content.length
  | scripted items _ => StreamItem.left items

theorem length_chunkOf (content : Bytes) (chunk n : Nat) :
    (chunkOf content chunk n).2.length + (chunkOf content chunk n).1.length = content.length := by
  simp only [chunkOf, List.length_take, List.length_drop]
  omega

theorem length_chunkOf_le (content : Bytes) (chunk n : Nat) :
    (chunkOf content chunk n).1.length ≤ n := by
  simp only [chunkOf, List.length_take]
  omega

theorem left_read (s : Source) (n : Nat) (b : Bytes) (h : (read s n).result = .ok b) :
    left (read s n).rest + b.length ≤ left s := by
  cases s with
  | chunked content chunk fails =>
    cases h
    exact Nat.le_of_eq (length_chunkOf content chunk n)
  | failing content chunk =>
    cases content with
    | nil => cases h
    | cons c cs =>
      cases h
      exact Nat.le_of_eq (length_chunkOf (c :: cs) chunk n)
  | scripted items fails => exact StreamItem.left_read items n b h

theorem length_read (s : Source) (n : Nat) (b : Bytes) (h : (read s n).result = .ok b) :
    b.length ≤ n := by
  cases s with
  | chunked content chunk fails =>
    cases h
    exact length_chunkOf_le content chunk n
  | failing content chunk =>
    cases content with
    | nil => cases h
    | cons c cs =>
      cases h
      exact length_chunkOf_le (c :: cs) chunk n
  | scripted items fails => exact StreamItem.length_read items n b h

instance : ByteSource Source := ⟨read, closeFault, left, left_read, length_read⟩

/-- Whether the source keeps count of what was read from it. -/
def isCounted : Source → Bool
  | scripted .. => false
  | _ => true

end Source

/-! ## Closing -/

/-- The line on a close that failed. -/
def closeRecords (f : Option Fault) : List LogRecord :=
  match f with
  | none => []
  | some f =>
    [⟨.debug, text "Error occurred when closing response stream: " ++ f.message⟩]

/-- A close is recorded before it runs; its failure is logged and goes no further. -/
def closeEvents {S : Type} [ByteSource S] (stream : Nat) (s : S) : List Event :=
  .close stream :: (closeRecords (ByteSource.closeFault s)).map .log

/-- A stream with the number it was given when it was made. -/
structure Stream where
  id : Nat
  source : Source
  deriving DecidableEq, Repr

namespace Stream

def close (s : Stream) (t : Trace) : Trace := (closeEvents s.id s.source).foldl Array.push t

end Stream

end RequestFlow
