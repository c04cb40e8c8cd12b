/-!
# Decimal numbers

Reading a number written with digits, a point and an exponent.  The sign is kept apart, so that a
negative zero is told from zero.
-/

namespace RequestFlow

/-- The number `digits * 10 ^ power` with a sign of its own. -/
structure Decimal where
  negative : Bool
  digits : Nat
  power : Int
  deriving DecidableEq, Repr

namespace Decimal

/-- The number that decimal digits denote. -/
def value (cs : List Char) : Nat := cs.foldl (fun n c => 10 * n + (c.toNat - 48)) 0

/-- The exponent after its mark. -/
def readPower : List Char → Int
  | '-' :: cs => -(value cs : Int)
  | '+' :: cs => value cs
  | cs => value cs

def isExponentMark (c : Char) : Bool := c == 'e' || c == 'E'

/-- Reads digits with or without a point, and an exponent; each part may be missing. -/
def readSize (cs : List Char) : Decimal :=
  let significand := cs.takeWhile fun c => !isExponentMark c
  let places := (significand.dropWhile (· != '.')).drop 1
  let power := readPower ((cs.dropWhile fun c => !isExponentMark c).drop 1)
  ⟨false, value (significand.takeWhile (· != '.') ++ places), power - places.length⟩

/-- Reads a number, with or without a minus sign. -/
def read : List Char → Decimal
  | '-' :: cs => { readSize cs with negative := true }
  | cs => readSize cs

/-- The size as numerator and denominator. -/
def quotient (d : Decimal) : Nat × Nat :=
  if 0 ≤ d.power then (d.digits * Nat.pow 10 d.power.toNat, 1)
  else (d.digits, Nat.pow 10 (-d.power).toNat)

example : read "-2.50e-3".toList = ⟨true, 250, -5⟩ := by decide

example : read "-0.0".toList = ⟨true, 0, -1⟩ := by decide

end Decimal

end RequestFlow
