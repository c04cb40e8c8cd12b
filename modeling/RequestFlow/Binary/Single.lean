import RequestFlow.Binary.Rounding
import RequestFlow.Decimal
import RequestFlow.Word

/-!
# Single precision

Numbers of single precision and the operations that a growing timeout needs: reading a decimal,
rounding an integer, a product, and the integer part as a machine word.  A product that is no number
is none.
-/

namespace RequestFlow

/-- A single-precision number that is no NaN. -/
structure Single where
  negative : Bool
  size : Magnitude
  deriving DecidableEq, Repr

namespace Single

def one : Single := ⟨false, .finite 8388608 (-23)⟩

/-- A decimal, rounded to double precision and then to single. -/
def ofDecimal (d : Decimal) : Single :=
  let q := d.quotient
  ⟨d.negative, (Magnitude.nearest .double q.1 q.2).convert .single⟩

def ofInt (n : Int) : Single := ⟨decide (n < 0), Magnitude.nearest .single n.natAbs 1⟩

/-- Less than zero; the negative zero is not. -/
def isNegative (x : Single) : Bool :=
  x.negative && match x.size with
    | .finite m _ => m != 0
    | .infinite => true

/-- The product, or nothing where it is no number. -/
def mul (x y : Single) : Option Single :=
  let negative := x.negative != y.negative
  match x.size, y.size with
  | .finite m₁ e₁, .finite m₂ e₂ =>
    let q := Magnitude.quotient (m₁ * m₂) (e₁ + e₂)
    some ⟨negative, Magnitude.nearest .single q.1 q.2⟩
  | .finite m _, .infinite | .infinite, .finite m _ =>
    if m = 0 then none else some ⟨negative, .infinite⟩
  | .infinite, .infinite => some ⟨negative, .infinite⟩

/-- The integer part, toward zero; nothing for an infinity. -/
def truncate? (x : Single) : Option Int :=
  match x.size with
  | .finite m e =>
    let q := Magnitude.quotient m e
    some (if x.negative then -((q.1 / q.2 : Nat) : Int) else ((q.1 / q.2 : Nat) : Int))
  | .infinite => none

/-- The integer part as a signed word; the least word stands for all that do not fit. -/
def toWord (x : Option Single) : Int :=
  match x.bind truncate? with
  | some n => if Word.Holds n then n else -Word.bound
  | none => -Word.bound

/-- The interchange encoding. -/
def bits (x : Single) : Nat :=
  (if x.negative then 2147483648 else 0) +
    match x.size with
    | .finite m e => if m < 8388608 then m else (e + 150).toNat * 8388608 + (m - 8388608)
    | .infinite => 2139095040

example : (ofDecimal (Decimal.read "1.1".toList)).bits = 1066192077 := by decide +kernel

example : (ofDecimal (Decimal.read "-0.0".toList)).bits = 2147483648 := by decide +kernel

example : (ofDecimal (Decimal.read "1e-45".toList)).bits = 1 := by decide +kernel

example : toWord ((ofInt 2500).mul one) = 2500 := by decide +kernel

end Single

end RequestFlow
