import RequestFlow.Buffer

/-!
# A bounded best-fit pool

Released buffers are kept, oldest first, as long as their sizes add up to no more than a limit; the
oldest ones are freed to make room, and a buffer above the limit is freed at once.  A second index
has the same buffers by size, those of one size in the order of their release, so that a lease gets
the smallest buffer that is large enough, and of several the one released longest ago.
-/

namespace RequestFlow

structure BestFit where
  limit : Nat := 4096
  cachedBytes : Nat := 0
  /-- Kept buffers, the one released longest ago first. -/
  byRelease : List Buffer := []
  /-- The same buffers, the smallest first. -/
  bySize : List Buffer := []
  /-- The number of the next buffer to be made. -/
  next : Nat := 1
  /-- Buffers that were freed, in order. -/
  freed : List Nat := []
  deriving DecidableEq, Repr

namespace BestFit

/-! ## Algorithm -/

/-- The list without the buffer of that number. -/
def without (id : Nat) (l : List Buffer) : List Buffer := l.eraseP (·.id == id)

/-- Makes a buffer that is not in the pool. -/
def make (p : BestFit) (size : Nat) : Except Fault Buffer × BestFit :=
  match Buffer.allocate p.next size with
  | .error f => (.error f, p)
  | .ok b => (.ok b, { p with next := p.next + 1 })

/-- Takes a kept buffer out of the pool. -/
def takeOut (p : BestFit) (b : Buffer) : BestFit :=
  { p with
    cachedBytes := p.cachedBytes - b.capacity
    byRelease := without b.id p.byRelease
    bySize := without b.id p.bySize }

/-- Lends the first buffer by size that is large enough, or a new one of just the size. -/
def lease (p : BestFit) (size : Nat) : Except Fault Buffer × BestFit :=
  match p.bySize.find? fun b => decide (size ≤ b.capacity) with
  | none => p.make size
  | some b => (.ok b, p.takeOut b)

/-- Puts a buffer behind all that are not larger. -/
def insertBySize (b : Buffer) : List Buffer → List Buffer
  | [] => [b]
  | x :: xs => if b.capacity < x.capacity then b :: x :: xs else x :: insertBySize b xs

def free (p : BestFit) (b : Buffer) : BestFit := { p with freed := p.freed ++ [b.id] }

/-- Frees the listed buffers, in order, until the pool fits its limit. -/
def trim (p : BestFit) : List Buffer → BestFit
  | [] => p
  | b :: rest => if p.cachedBytes ≤ p.limit then p else trim ((p.takeOut b).free b) rest

/-- Keeps a buffer as the latest one. -/
def keep (p : BestFit) (b : Buffer) : BestFit :=
  { p with
    cachedBytes := p.cachedBytes + b.capacity
    byRelease := p.byRelease ++ [b]
    bySize := insertBySize b p.bySize }

def release (p : BestFit) (b : Buffer) : BestFit :=
  if p.limit < b.capacity then p.free b else trim (p.keep b) (p.keep b).byRelease

instance : BufferPool BestFit := ⟨lease, release⟩

/-- Makes a buffer and gives it to the pool; the answer is its number. -/
def put (p : BestFit) (size : Nat) : Except Fault Nat × BestFit :=
  match p.make size with
  | (.error f, p) => (.error f, p)
  | (.ok b, p) => (.ok b.id, p.release b)

/-- The pool after new buffers of the given sizes were given to it. -/
def preloaded (p : BestFit) : List Nat → Except Fault BestFit
  | [] => .ok p
  | size :: rest =>
    match p.put size with
    | (.error f, _) => .error f
    | (.ok _, p) => p.preloaded rest

/-! ## Lemmas -/

theorem capacity_make {p : BestFit} {size : Nat} {b : Buffer} (h : (p.make size).1 = .ok b) :
    b.capacity = size := by
  unfold make at h
  split at h
  · cases h
  · rename_i made
    cases h
    exact Buffer.capacity_allocate made

instance : LawfulBufferPool BestFit where
  le_capacity := by
    intro p size b h
    show size ≤ b.capacity
    simp only [BufferPool.lease, lease] at h
    split at h
    · exact Nat.le_of_eq (capacity_make h).symm
    · rename_i found
      cases h
      have := List.find?_some found
      simpa using this

end BestFit

end RequestFlow
