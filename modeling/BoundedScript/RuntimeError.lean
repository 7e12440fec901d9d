import BoundedScript.Value

/-! # Why a run stops

Operations on values know nothing of lines and fail with a fault; evaluation puts the fault on the
line of the node that it was computing.
-/

namespace BoundedScript

/-- Operands that an operation cannot take. -/
inductive Mismatch where
  | arithmetic (op : ArithmeticOp) (left right : Kind)
  | comparison (op : ComparisonOp) (left right : Kind)
  | negatedBoolean
  | notANumber (found : Kind)
  /-- A negative base has no power with a fractional exponent. -/
  | fractionalPower (base exponent : Binary64)
  deriving DecidableEq

namespace Mismatch

/-- Messages write numbers out in full, whole ones without a point. -/
def layout : Decimal.Layout where
  inFull _ := true
  wholeTail := []

def text : Mismatch → String
  | arithmetic op left right =>
    "Cannot use " ++ op.spelling ++ " on " ++ left.name ++ " and " ++ right.name
  | comparison op left right =>
    "Cannot use " ++ op.spelling ++ " on " ++ left.name ++ " and " ++ right.name
  | negatedBoolean => "Cannot negate a boolean"
  | notANumber found => "expected a number, found " ++ found.name
  | fractionalPower base exponent =>
    base.text layout ++ " cannot be raised to the fractional power " ++ exponent.text layout

end Mismatch

inductive Fault where
  | unknownVariable (name : String)
  | typeError (mismatch : Mismatch)
  | expectedBoolean
  | expectedInteger
  | missingValue
  | divisionByZero
  | overflow
  | loopLimit (limit : Nat)
  deriving DecidableEq

def Fault.text : Fault → String
  | unknownVariable name => "Unknown variable '" ++ name ++ "'"
  | typeError mismatch => "Type error: " ++ mismatch.text
  | expectedBoolean => "Expected boolean"
  | expectedInteger => "Expected integer"
  | missingValue => "Value missing"
  | divisionByZero => "Division by zero"
  | overflow => "Integer overflow while trying to compute result"
  | loopLimit limit => s!"Loop exceeded the maximum of {limit} iterations"

structure RuntimeError where
  fault : Fault
  line : Nat
  deriving DecidableEq

def RuntimeError.message (e : RuntimeError) : String :=
  s!"Error on line {e.line}: " ++ e.fault.text ++ "."

end BoundedScript
