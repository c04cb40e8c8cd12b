/-!
# Machine words

Counts of 64 bits, read with or without a sign.

    -2 ^ 63 ≤ wrap n < 2 ^ 63, and wrap n = n when n is in that range     (wrap_bounds, wrap_eq_self)
-/

namespace RequestFlow.Word

/-- Two to the 64th. -/
def modulus : Nat := 18446744073709551616

/-- Two to the 63rd: the first number that no signed word holds. -/
def bound : Int := 9223372036854775808

/-- The signed word that a number leaves when its higher bits are lost. -/
def wrap (n : Int) : Int := n.bmod modulus

/-- Whether a signed word holds the number. -/
def Holds (n : Int) : Prop := -bound ≤ n ∧ n < bound

instance (n : Int) : Decidable (Holds n) := by unfold Holds; infer_instance

theorem wrap_bounds (n : Int) : Holds (wrap n) := by
  have h₁ := Int.le_bmod (x := n) (m := modulus) (by decide)
  have h₂ := Int.bmod_lt (x := n) (m := modulus) (by decide)
  simp only [Holds, wrap, bound, modulus] at *
  omega

theorem wrap_eq_self {n : Int} (h : Holds n) : wrap n = n := by
  obtain ⟨h₁, h₂⟩ := h
  simp only [bound] at h₁ h₂
  unfold wrap modulus
  rw [Int.bmod_eq_of_le (by omega) (by omega)]

end RequestFlow.Word
