import RequestFlow.Buffer.BestFit
import RequestFlow.Buffer.Counting

/-!
# Pools of either kind

The two pools as one type, for a network that can be given the one or the other.
-/

namespace RequestFlow

inductive Pool
  | bestFit (p : BestFit)
  | counting (p : Counting)
  deriving DecidableEq, Repr

namespace Pool

def lease : Pool → Nat → Except Fault Buffer × Pool
  | bestFit p, n => let (b, p) := p.lease n; (b, bestFit p)
  | counting p, n => let (b, p) := p.lease n; (b, counting p)

def release : Pool → Buffer → Pool
  | bestFit p, b => bestFit (p.release b)
  | counting p, b => counting (p.release b)

instance : BufferPool Pool := ⟨lease, release⟩

instance : LawfulBufferPool Pool where
  le_capacity := by
    intro p size b h
    cases p with
    | bestFit p => exact LawfulBufferPool.le_capacity p size b h
    | counting p => exact LawfulBufferPool.le_capacity p size b h

end Pool

end RequestFlow
