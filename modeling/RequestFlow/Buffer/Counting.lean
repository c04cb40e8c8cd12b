import RequestFlow.Buffer
import RequestFlow.Word

/-!
# A counting pool

A pool that keeps nothing: each lease makes a buffer of just the size asked for, and the leases and
releases are counted.  A lease is counted before its buffer is made.
-/

namespace RequestFlow

structure Counting where
  leases : Nat := 0
  releases : Nat := 0
  /-- Sizes asked for, in order. -/
  sizes : Array Nat := #[]
  deriving DecidableEq, Repr

namespace Counting

def lease (p : Counting) (size : Nat) : Except Fault Buffer × Counting :=
  (Buffer.allocate (p.leases + 1) size,
    { p with leases := p.leases + 1, sizes := p.sizes.push size })

def release (p : Counting) (_ : Buffer) : Counting := { p with releases := p.releases + 1 }

instance : BufferPool Counting := ⟨lease, release⟩

/-- Leases that no release has answered, as a machine word. -/
def outstanding (p : Counting) : Nat := (p.leases + Word.modulus - p.releases) % Word.modulus

instance : LawfulBufferPool Counting where
  le_capacity := by
    intro p n b h
    exact Nat.le_of_eq (Buffer.capacity_allocate h).symm

end Counting

end RequestFlow
