import BoundedScript.Binary64.Rounding

/-! # Decimal numbers

A decimal number is a whole coefficient and a power of ten. Reading one rounds its exact value once,
so a text and the number it denotes are tied together by `Decimal.toBinary64`.
-/

namespace BoundedScript

/-- The number `coefficient · 10 ^ exponent`. -/
structure Decimal where
  coefficient : Nat
  exponent : Int
  deriving DecidableEq, Repr

namespace Decimal

/-- The power of ten that a non-negative exponent multiplies by. -/
def numPower (exponent : Int) : Nat := Nat.pow 10 exponent.toNat

/-- The power of ten that a negative exponent divides by. -/
def denPower (exponent : Int) : Nat := Nat.pow 10 (-exponent).toNat

/-- The nearest binary64 number, with the given sign. -/
def toBinary64 (negative : Bool) (d : Decimal) : Binary64 :=
  .ofRatio negative (d.coefficient * numPower d.exponent * Binary64.unitsPerOne)
    (denPower d.exponent)

/-- The same number without trailing zeros in its coefficient. -/
def trim (d : Decimal) : Decimal :=
  if d.coefficient ≠ 0 ∧ d.coefficient % 10 = 0 then
    trim ⟨d.coefficient / 10, d.exponent + 1⟩
  else d
termination_by d.coefficient
decreasing_by
  rename_i h
  exact Nat.div_lt_self (Nat.pos_of_ne_zero h.1) (by decide)

def digits (d : Decimal) : List Char := Nat.toDigits 10 d.coefficient

/-- The exponent of ten at which the leading digit stands. -/
def leadingExponent (d : Decimal) : Int := d.exponent + d.digits.length - 1

end Decimal

end BoundedScript
