import BoundedScript.Decimal.Shortest

/-! # Texts of binary64 numbers

A layout says which numbers are written out in full and what ends a whole number. All layouts share
the digits: those of the shortest decimal that reads back.
-/

namespace BoundedScript

namespace Decimal

/-- The digits with a point in their place, or with zeros up to the place of units. A whole number
is followed by `wholeTail`. -/
def positional (wholeTail : List Char) (d : Decimal) : List Char :=
  if 0 ≤ d.exponent then
    d.digits ++ List.replicate d.exponent.toNat '0' ++ wholeTail
  else
    let places := (-d.exponent).toNat
    let padded := List.replicate (places + 1 - d.digits.length) '0' ++ d.digits
    let whole := padded.length - places
    padded.take whole ++ '.' :: padded.drop whole

/-- The exponent with its sign and at least two digits. -/
def exponentText (e : Int) : List Char :=
  let digits := Nat.toDigits 10 e.natAbs
  (if e < 0 then '-' else '+') :: (List.replicate (2 - digits.length) '0' ++ digits)

/-- One digit before the point, and the exponent of ten after an `e`. -/
def scientific (d : Decimal) : List Char :=
  let point := if d.digits.length = 1 then [] else ['.']
  d.digits.take 1 ++ point ++ d.digits.drop 1 ++ 'e' :: exponentText d.leadingExponent

structure Layout where
  /-- Whether a number whose leading digit stands at this exponent of ten is written in full. -/
  inFull : Int → Bool
  /-- What follows a whole number that is written in full. -/
  wholeTail : List Char

def Layout.write (layout : Layout) (d : Decimal) : List Char :=
  if layout.inFull d.leadingExponent then d.positional layout.wholeTail else d.scientific

end Decimal

namespace Binary64

def text (layout : Decimal.Layout) : Binary64 → String
  | .nan => "nan"
  | .infinite negative => if negative then "-inf" else "inf"
  | .finite negative units _ =>
    .ofList ((if negative then ['-'] else []) ++ layout.write (Decimal.shortest units))

end Binary64

end BoundedScript
