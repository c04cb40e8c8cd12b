import RequestFlow.Bytes

/-!
# Fields of fixed width

Fields of two and four decimal digits and of three letters, as dates need them.  A digit is the low
eight bits of the code of `0` plus the digit's value, and quotients and remainders go toward zero; so
a value that does not fit its field still has one fixed rendering.

    fieldValue (two n) = n    for n < 100                       (fieldValue_two)
    fieldValue (four n) = n   for n < 10000                     (fieldValue_four)
-/

namespace RequestFlow

namespace FixedWidth

/-! ## Algorithm -/

def digit (d : Int) : UInt8 := UInt8.ofInt (48 + d)

def two (n : Int) : Bytes := [digit (n.tdiv 10), digit (n.tmod 10)]

def four (n : Int) : Bytes :=
  [digit (n.tdiv 1000), digit ((n.tdiv 100).tmod 10), digit ((n.tdiv 10).tmod 10), digit (n.tmod 10)]

/-- The first three bytes of a name. -/
def three (a : Bytes) : Bytes := a.take 3

/-- The number that a field of decimal digits denotes. -/
def fieldValue (a : Bytes) : Nat := a.foldl (fun n b => 10 * n + (b.toNat - 48)) 0

/-! ## Lemmas -/

theorem digit_toNat {d : Int} (h₀ : 0 ≤ d) (h₁ : d < 10) : (digit d).toNat = 48 + d.toNat := by
  obtain ⟨n, rfl⟩ := Int.eq_ofNat_of_zero_le h₀
  have h : n < 10 := by omega
  simp only [digit, UInt8.ofInt]
  have e : ((48 + (n : Int)) % 2 ^ 8).toNat = 48 + n := by omega
  rw [e, UInt8.toNat_ofNat']
  simp
  omega

theorem fieldValue_two {n : Nat} (h : n < 100) : fieldValue (two n) = n := by
  have a : ((n : Int).tdiv 10) = ((n / 10 : Nat) : Int) := by
    rw [Int.tdiv_eq_ediv_of_nonneg (by omega)]; omega
  have b : ((n : Int).tmod 10) = ((n % 10 : Nat) : Int) := by
    rw [Int.tmod_eq_emod_of_nonneg (by omega)]; omega
  simp only [two, fieldValue, List.foldl, a, b]
  rw [digit_toNat (by omega) (by omega), digit_toNat (by omega) (by omega)]
  simp only [Int.toNat_natCast]
  omega

theorem fieldValue_four {n : Nat} (h : n < 10000) : fieldValue (four n) = n := by
  have a : ((n : Int).tdiv 1000) = ((n / 1000 : Nat) : Int) := by
    rw [Int.tdiv_eq_ediv_of_nonneg (by omega)]; omega
  have b : (((n : Int).tdiv 100).tmod 10) = ((n / 100 % 10 : Nat) : Int) := by
    rw [Int.tdiv_eq_ediv_of_nonneg (by omega), Int.tmod_eq_emod_of_nonneg (by omega)]; omega
  have c : (((n : Int).tdiv 10).tmod 10) = ((n / 10 % 10 : Nat) : Int) := by
    rw [Int.tdiv_eq_ediv_of_nonneg (by omega), Int.tmod_eq_emod_of_nonneg (by omega)]; omega
  have d : ((n : Int).tmod 10) = ((n % 10 : Nat) : Int) := by
    rw [Int.tmod_eq_emod_of_nonneg (by omega)]; omega
  simp only [four, fieldValue, List.foldl, a, b, c, d]
  rw [digit_toNat (by omega) (by omega), digit_toNat (by omega) (by omega),
    digit_toNat (by omega) (by omega), digit_toNat (by omega) (by omega)]
  simp only [Int.toNat_natCast]
  omega

end FixedWidth

end RequestFlow
