/-!
# Byte strings

Every text of the library is a byte string: names, values, bodies, log lines and error texts.
Lengths and cuts count bytes.  Letter case is that of the twenty-six Latin letters; all other
bytes, those above `0x7F` included, are their own lower form.

    equalIgnoringCase a b = true ↔ lower a = lower b          (equalIgnoringCase_iff)
    lower (lower a) = lower a                                  (lower_lower)
    0 ∉ upToNul a                                              (zero_not_mem_upToNul)
-/

namespace RequestFlow

abbrev Bytes := List UInt8

/-- The UTF-8 bytes of a string. -/
def text (s : String) : Bytes := s.toList.flatMap String.utf8EncodeChar

namespace Bytes

/-! ## Algorithm -/

def lowerByte (b : UInt8) : UInt8 := if 65 ≤ b ∧ b ≤ 90 then b ||| 32 else b

def lower (a : Bytes) : Bytes := a.map lowerByte

def equalIgnoringCase : Bytes → Bytes → Bool
  | [], [] => true
  | x :: xs, y :: ys => lowerByte x == lowerByte y && equalIgnoringCase xs ys
  | _, _ => false

/-- The part before the first zero byte. -/
def upToNul (a : Bytes) : Bytes := a.takeWhile (· != 0)

/-- Byte strings in the order of their first difference. -/
def precedes : Bytes → Bytes → Bool
  | [], [] => false
  | [], _ :: _ => true
  | _ :: _, [] => false
  | x :: xs, y :: ys => x < y || (x == y && precedes xs ys)

/-- Decimal digits, without leading zeros. -/
def ofNat (n : Nat) : Bytes := (Nat.toDigits 10 n).map fun c => c.toNat.toUInt8

/-- Decimal digits after a minus sign where needed. -/
def ofInt : Int → Bytes
  | .ofNat n => ofNat n
  | .negSucc n => 45 :: ofNat (n + 1)

/-! ## Lemmas -/

/-- What holds of all 256 codes holds of every byte. -/
theorem forall_byte {P : UInt8 → Prop} (codes : ∀ n, n < 256 → P n.toUInt8) (b : UInt8) : P b := by
  have code := codes b.toNat b.toNat_lt
  rwa [Nat.toUInt8_eq, UInt8.ofNat_toNat] at code

theorem lowerByte_lowerByte (b : UInt8) : lowerByte (lowerByte b) = lowerByte b :=
  forall_byte (P := fun b => lowerByte (lowerByte b) = lowerByte b) (by decide +kernel) b

theorem lower_lower (a : Bytes) : lower (lower a) = lower a := by
  simp [lower, lowerByte_lowerByte]

theorem equalIgnoringCase_iff (a b : Bytes) :
    equalIgnoringCase a b = true ↔ lower a = lower b := by
  induction a generalizing b with
  | nil => cases b <;> simp [equalIgnoringCase, lower]
  | cons x xs ih =>
    cases b with
    | nil => simp [equalIgnoringCase, lower]
    | cons y ys =>
      have h := ih ys
      simp only [lower] at h
      simp [equalIgnoringCase, lower, h]

theorem zero_not_mem_upToNul (a : Bytes) : (0 : UInt8) ∉ upToNul a := by
  induction a with
  | nil => simp [upToNul]
  | cons x xs ih =>
    simp only [upToNul] at ih
    by_cases hx : x = 0
    · simp [upToNul, hx]
    · simp [upToNul, hx, ih, Ne.symm hx]

theorem upToNul_eq_self {a : Bytes} (h : (0 : UInt8) ∉ a) : upToNul a = a := by
  induction a with
  | nil => rfl
  | cons x xs ih =>
    simp only [List.mem_cons, not_or] at h
    have hx : x ≠ 0 := Ne.symm h.1
    have := ih h.2
    simp only [upToNul] at this
    simp [upToNul, hx, this]

end Bytes

end RequestFlow
