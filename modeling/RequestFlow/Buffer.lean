import RequestFlow.Fault

/-!
# Buffers

A buffer is an array of bytes with a number of its own.  A pool lends buffers of at least a wanted
size and takes them back; what a lent buffer holds is left from its last use.

    (b.write i d).front (i + d.length) = b.front i ++ d   inside the capacity
                                                               (front_write)
-/

namespace RequestFlow

/-! ## Algorithm -/

structure Buffer where
  id : Nat
  bytes : Array UInt8
  deriving DecidableEq, Repr

namespace Buffer

def capacity (b : Buffer) : Nat := b.bytes.size

/-- Puts the bytes into the array one after the other, from position `i` on. -/
def overwrite (a : Array UInt8) (i : Nat) : Bytes → Array UInt8
  | [] => a
  | x :: xs => overwrite (a.setIfInBounds i x) (i + 1) xs

def write (b : Buffer) (i : Nat) (data : Bytes) : Buffer :=
  ⟨b.id, overwrite b.bytes i data⟩

/-- The first `n` bytes. -/
def front (b : Buffer) (n : Nat) : Bytes := b.bytes.toList.take n

/-- No byte array is larger than this, two to the 32nd. -/
def largest : Nat := 4294967296

def allocate (id size : Nat) : Except Fault Buffer :=
  if largest < size then .error .outOfMemory else .ok ⟨id, Array.replicate size 0⟩

end Buffer

/-- A source of buffers.  A lease may fail; the pool may change all the same. -/
class BufferPool (P : Type) where
  lease : P → Nat → Except Fault Buffer × P
  release : P → Buffer → P

/-- A pool that lends no buffer smaller than was asked for. -/
class LawfulBufferPool (P : Type) [BufferPool P] : Prop where
  le_capacity : ∀ (p : P) (n : Nat) (b : Buffer),
    (BufferPool.lease p n).1 = .ok b → n ≤ b.capacity

/-- Exchanges a lent buffer for a larger one that begins with the same `keep` bytes. -/
def BufferPool.grow {P : Type} [BufferPool P] (pool : P) (b : Buffer) (size keep : Nat) :
    Except Fault Buffer × P :=
  match BufferPool.lease pool size with
  | (.error f, pool) => (.error f, pool)
  | (.ok larger, pool) => (.ok (larger.write 0 (b.front keep)), BufferPool.release pool b)

/-! ## Lemmas -/

namespace Buffer

@[simp] theorem size_overwrite (a : Array UInt8) (i : Nat) (d : Bytes) :
    (overwrite a i d).size = a.size := by
  induction d generalizing a i with
  | nil => rfl
  | cons x xs ih => simp [overwrite, ih]

@[simp] theorem capacity_write (b : Buffer) (i : Nat) (d : Bytes) :
    (b.write i d).capacity = b.capacity := by
  simp [capacity, write]

theorem toList_overwrite (a : Array UInt8) (i : Nat) (d : Bytes) (h : i + d.length ≤ a.size) :
    (overwrite a i d).toList = a.toList.take i ++ d ++ a.toList.drop (i + d.length) := by
  induction d generalizing a i with
  | nil => simp [overwrite]
  | cons x xs ih =>
    simp only [List.length_cons] at h
    have hi : i < a.toList.length := by rw [Array.length_toList]; omega
    have e : (a.setIfInBounds i x).toList = (a.toList.take i ++ [x]) ++ a.toList.drop (i + 1) := by
      rw [Array.toList_setIfInBounds, List.set_eq_take_append_cons_drop, if_pos hi]
      simp
    have hl : (a.toList.take i ++ [x]).length = i + 1 := by
      rw [List.length_append, List.length_take, List.length_singleton]; omega
    rw [overwrite, ih _ _ (by rw [Array.size_setIfInBounds]; omega), e]
    have back : ((a.toList.take i ++ [x]) ++ a.toList.drop (i + 1)).drop (i + 1 + xs.length) =
        a.toList.drop (i + (xs.length + 1)) := by
      rw [← List.drop_drop, List.drop_left' hl, List.drop_drop]
      congr 1
      omega
    rw [List.take_left' hl, back]
    simp

theorem front_write (b : Buffer) (i : Nat) (d : Bytes) (h : i + d.length ≤ b.capacity) :
    (b.write i d).front (i + d.length) = b.front i ++ d := by
  unfold capacity at h
  simp only [front, write]
  rw [toList_overwrite _ _ _ h]
  have hl : (b.bytes.toList.take i ++ d).length = i + d.length := by
    rw [List.length_append, List.length_take, Array.length_toList]; omega
  rw [List.take_append_of_le_length (by omega), ← hl, List.take_length]

theorem length_front (b : Buffer) (n : Nat) (h : n ≤ b.capacity) : (b.front n).length = n := by
  unfold capacity at h
  rw [front, List.length_take, Array.length_toList]
  omega

/-- A buffer that takes over the first bytes of another begins with them. -/
theorem front_takeOver (b lent : Buffer) {keep : Nat} (fits : keep ≤ b.capacity)
    (room : keep ≤ lent.capacity) : (lent.write 0 (b.front keep)).front keep = b.front keep := by
  have length : (b.front keep).length = keep := b.length_front keep fits
  have written := lent.front_write 0 (b.front keep) (by omega)
  rwa [length, Nat.zero_add] at written

theorem capacity_allocate {id size : Nat} {b : Buffer} (h : allocate id size = .ok b) :
    b.capacity = size := by
  unfold allocate at h
  split at h
  · cases h
  · cases h
    simp [capacity]

end Buffer

end RequestFlow
