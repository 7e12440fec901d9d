import BoundedScript.Binary64.Arithmetic
import BoundedScript.RuntimeError

/-! # Arithmetic on values

Integer results are computed exactly and refused if they leave the 64-bit range. An operation that
cannot stay with integers, or has a real operand, is carried out on reals.
-/

namespace BoundedScript.Value

def toReal : Value → Except Fault Binary64
  | integer n => .ok (.ofInt n.toInt)
  | real x => .ok x
  | boolean _ => .error (.typeError (.notANumber .boolean))

def toInteger : Value → Except Fault Integer64
  | integer n => .ok n
  | _ => .error .expectedInteger

/-- Numbers have no truth value. -/
def toBoolean : Value → Except Fault Bool
  | boolean b => .ok b
  | _ => .error .expectedBoolean

/-- A result that may be out of range, as a value. -/
def checked : Option Integer64 → Except Fault Value
  | some n => .ok (integer n)
  | none => .error .overflow

def ofInt (n : Int) : Except Fault Value := checked (Integer64.ofInt? n)

def onReals (op : ArithmeticOp) (x y : Binary64) : Except Fault Value :=
  match op with
  | .add => .ok (real (x + y))
  | .sub => .ok (real (x - y))
  | .mul => .ok (real (x * y))
  | .div => if y.isZero then .error .divisionByZero else .ok (real (x / y))
  | .floorDiv => if y.isZero then .error .divisionByZero else .ok (real (x.floorDiv y))
  | .pow =>
    if x.isZero && y.isNegative then .error .divisionByZero
    else if x.isNegative && y.hasFraction then .error (.typeError (.fractionalPower x y))
    else .ok (real (x.pow y))

/-- An operation on two numbers. If an operand is no number, the first such one is reported. -/
def onNumbers : ArithmeticOp → Value → Value → Except Fault Value
  | .add, integer a, integer b => ofInt (a.toInt + b.toInt)
  | .sub, integer a, integer b => ofInt (a.toInt - b.toInt)
  | .mul, integer a, integer b => ofInt (a.toInt * b.toInt)
  | .floorDiv, integer a, integer b =>
    if b.toInt = 0 then .error .divisionByZero else checked (a.floorDiv? b)
  | .pow, integer a, integer b =>
    if 0 ≤ b.toInt then checked (a.pow? b)
    else onReals .pow (.ofInt a.toInt) (.ofInt b.toInt)
  | op, x, y => do onReals op (← x.toReal) (← y.toReal)

/-- An arithmetic operation. If an operand is no number, both kinds are reported. -/
def arithmetic (op : ArithmeticOp) (x y : Value) : Except Fault Value :=
  if x.isNumeric && y.isNumeric then onNumbers op x y
  else .error (.typeError (.arithmetic op x.kind y.kind))

def unary : UnaryOp → Value → Except Fault Value
  | .not, v => do return boolean (! (← v.toBoolean))
  | .negate, integer n => ofInt (-n.toInt)
  | .negate, real x => .ok (real (-x))
  | .negate, boolean _ => .error (.typeError .negatedBoolean)

end BoundedScript.Value
