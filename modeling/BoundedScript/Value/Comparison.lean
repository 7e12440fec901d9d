import BoundedScript.Binary64.Arithmetic
import BoundedScript.RuntimeError

/-! # Comparison of values

Numbers are compared by their exact value, also an integer with a real: `9007199254740993` differs
from the nearest real, which a rounded comparison would not notice.
-/

namespace BoundedScript

/-- Whether a comparison holds of operands in the given order. Operands without an order are only
unequal. -/
def ComparisonOp.accepts : ComparisonOp → Option Ordering → Bool
  | .eq, o => o == some .eq
  | .ne, o => o != some .eq
  | .lt, o => o == some .lt
  | .gt, o => o == some .gt
  | .le, o => o == some .lt || o == some .eq
  | .ge, o => o == some .gt || o == some .eq

namespace Value

/-- 2⁶³, the first real above all integers of a script. -/
def integerBound : Binary64 := .ofInt 0x8000000000000000

/-- The order of an integer and a real. The integer may have more digits than a real can have, so it
is the real that is rounded, down to an integer. That lies outside the range of a script's integers
or is one of them. A real that loses something when it is rounded down is above the result. -/
def integerOrder? (n : Integer64) (y : Binary64) : Option Ordering :=
  let whole := y.floor
  if y = .nan then none
  else if (whole.compare? integerBound).any Ordering.isGE then some .lt
  else if whole.compare? (-integerBound) == some .lt then some .gt
  else
    match compare n.toInt whole.truncate with
    | .eq => some (if y.sameValue whole then .eq else .lt)
    | order => some order

def order? : Value → Value → Option Ordering
  | integer a, integer b => some (compare a.toInt b.toInt)
  | real x, real y => x.compare? y
  | integer a, real y => integerOrder? a y
  | real x, integer b => (integerOrder? b x).map Ordering.swap
  | _, _ => none

/-- Equality as scripts see it: numbers by value, booleans only with booleans. -/
def equals : Value → Value → Bool
  | integer a, integer b => a == b
  | real x, real y => x.sameValue y
  | integer a, real y | real y, integer a => integerOrder? a y == some .eq
  | boolean a, boolean b => a == b
  | _, _ => false

/-- A comparison. Any two values may be equal or not, but only numbers have an order. -/
def comparison (op : ComparisonOp) (x y : Value) : Except Fault Value :=
  match op with
  | .eq => .ok (boolean (x.equals y))
  | .ne => .ok (boolean (!x.equals y))
  | op =>
    if x.isNumeric && y.isNumeric then .ok (boolean (op.accepts (x.order? y)))
    else .error (.typeError (.comparison op x.kind y.kind))

end Value

end BoundedScript
