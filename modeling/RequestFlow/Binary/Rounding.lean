/-!
# Rounding to a binary format

Exact quotients are rounded to the nearest value of a binary format, and to the even one of two
equally near.  A rounded size is `finite m e`, which stands for `m * 2 ^ e`, or `infinite`.

    den * divNearest num den differs from num by at most half of den     (divNearest_within_half)
    a tie goes to the even integer                                       (divNearest_even_of_tie)
-/

namespace RequestFlow

/-! ## Algorithm -/

/-- A binary format: bits of the significand, and least and greatest exponent of its last bit. -/
structure BinaryFormat where
  precision : Nat
  minExponent : Int
  maxExponent : Int
  deriving DecidableEq, Repr

namespace BinaryFormat

def single : BinaryFormat := ⟨24, -149, 104⟩

def double : BinaryFormat := ⟨53, -1074, 971⟩

end BinaryFormat

inductive Magnitude
  | finite (significand : Nat) (exponent : Int)
  | infinite
  deriving DecidableEq, Repr

/-- The quotient rounded to the nearest integer, a tie to the even one. -/
def divNearest (num den : Nat) : Nat :=
  let q := num / den
  let r := num % den
  if 2 * r < den then q else if den < 2 * r then q + 1 else if q % 2 = 0 then q else q + 1

/-- The quotient `num / den` over `2 ^ e`, as numerator and denominator. -/
def overPower (num den : Nat) (e : Int) : Nat × Nat :=
  if 0 ≤ e then (num, den * Nat.pow 2 e.toNat) else (num * Nat.pow 2 (-e).toNat, den)

/-- The greatest `l` with `2 ^ l ≤ num / den`, for positive numbers. -/
def floorLog (num den : Nat) : Int :=
  let l : Int := (Nat.log2 num : Int) - Nat.log2 den
  let scaled := overPower num den l
  if scaled.2 ≤ scaled.1 then l else l - 1

namespace Magnitude

/-- The size `m * 2 ^ e`, where `m` has at most one bit more than the format has. -/
def ofParts (f : BinaryFormat) (m : Nat) (e : Int) : Magnitude :=
  let (m, e) := if m < Nat.pow 2 f.precision then (m, e) else (m / 2, e + 1)
  if f.maxExponent < e then infinite else finite m e

/-- The value of the format nearest to `num / den`. -/
def nearest (f : BinaryFormat) (num den : Nat) : Magnitude :=
  if num = 0 then finite 0 f.minExponent
  else
    let e := max f.minExponent (floorLog num den - (f.precision - 1 : Nat))
    let scaled := overPower num den e
    ofParts f (divNearest scaled.1 scaled.2) e

/-- A finite size as numerator and denominator. -/
def quotient (m : Nat) (e : Int) : Nat × Nat :=
  if 0 ≤ e then (m * Nat.pow 2 e.toNat, 1) else (m, Nat.pow 2 (-e).toNat)

/-- The size rounded again to another format. -/
def convert (f : BinaryFormat) : Magnitude → Magnitude
  | finite m e => let q := quotient m e; nearest f q.1 q.2
  | infinite => infinite

end Magnitude

/-! ## Lemmas -/

/-- Rounding a quotient moves it by at most one half. -/
theorem divNearest_within_half (num : Nat) {den : Nat} (h : 0 < den) :
    2 * (den * divNearest num den) ≤ 2 * num + den ∧
      2 * num ≤ 2 * (den * divNearest num den) + den := by
  have split_num := Nat.div_add_mod num den
  have hr := Nat.mod_lt num h
  have next : den * (num / den + 1) = den * (num / den) + den := by rw [Nat.mul_add, Nat.mul_one]
  generalize hq : den * (num / den) = p at split_num next
  unfold divNearest
  simp only
  split
  · rw [hq]; omega
  · split
    · rw [next]; omega
    · split
      · rw [hq]; omega
      · rw [next]; omega

/-- A quotient just between two integers goes to the even one. -/
theorem divNearest_even_of_tie {num den : Nat} (h : 2 * (num % den) = den) :
    divNearest num den % 2 = 0 := by
  unfold divNearest
  simp only
  rw [if_neg (by omega), if_neg (by omega)]
  split
  · assumption
  · omega

/-- A power of two over one is found at once, and so is its neighbour in the last bit. -/
example : Magnitude.nearest .single 16777216 1 = .finite 8388608 1 ∧
    Magnitude.nearest .single 16777217 1 = .finite 8388608 1 ∧
    Magnitude.nearest .single 16777219 1 = .finite 8388610 1 := by decide

end RequestFlow
