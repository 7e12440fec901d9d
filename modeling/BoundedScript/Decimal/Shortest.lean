import BoundedScript.Decimal

/-! # The shortest decimal of a binary64 number

The decimals with a given number of leading digits form a grid, and only the two grid points around
a number can be the shortest decimal that reads back as it. Grids are tried from coarse to fine, so
the first hit has the fewest digits. Of two hits the nearer one is taken, and the upper one if both
are equally near.
-/

namespace BoundedScript.Decimal

/-- The exponent of the leading decimal digit of a positive number of units. -/
def decade (units : Nat) : Int :=
  let whole := units / Binary64.unitsPerOne
  if whole = 0 then -((Nat.toDigits 10 ((Binary64.unitsPerOne - 1) / units)).length : Int)
  else (Nat.toDigits 10 whole).length - 1

/-- Whether a decimal denotes the finite number with this many units. -/
def readsBack (units : Nat) (d : Decimal) : Bool := hasUnits (d.toBinary64 false)
where
  hasUnits : Binary64 → Bool
    | .finite _ n _ => n == units
    | _ => false

/-- The two points around a number on the grid of multiples of `10 ^ exponent`, the nearer first. -/
def neighbours (units : Nat) (exponent : Int) : List Decimal :=
  let num := units * denPower exponent
  let den := Binary64.unitsPerOne * numPower exponent
  let below := trim ⟨num / den, exponent⟩
  let above := trim ⟨num / den + 1, exponent⟩
  if 2 * (num % den) < den then [below, above] else [above, below]

/-- All decimal digits of a number: a unit is `5 ^ 1074` steps of `10 ^ -1074`. -/
def exact (units : Nat) : Decimal := trim ⟨units * Nat.pow 5 1074, -1074⟩

/-- The shortest decimal that reads back as the number. Seventeen digits tell any two numbers
apart. -/
def shortest (units : Nat) : Decimal :=
  if units = 0 then ⟨0, 0⟩
  else
    let hit (n : Nat) := (neighbours units (decade units - n)).find? (readsBack units)
    ((List.range 17).findSome? hit).getD (exact units)

end BoundedScript.Decimal
