import BoundedScript.Decimal.Layout
import BoundedScript.Expr

/-! # Values

A script computes with 64-bit integers, binary64 reals and booleans. A statement that produces
nothing has no value at all, so there is no value that stands for nothing.
-/

namespace BoundedScript

inductive Kind where
  | integer | real | boolean
  deriving DecidableEq, Repr

def Kind.name : Kind → String
  | .integer => "integer"
  | .real => "real"
  | .boolean => "boolean"

inductive Value where
  | integer (n : Integer64)
  | real (x : Binary64)
  | boolean (b : Bool)
  deriving DecidableEq

namespace Value

instance : Inhabited Value := ⟨boolean false⟩

def ofLiteral : Literal → Value
  | .integer n => integer n
  | .boolean b => boolean b

def kind : Value → Kind
  | integer _ => .integer
  | real _ => .real
  | boolean _ => .boolean

def isNumeric (v : Value) : Bool := v.kind != .boolean

/-- Results are written in full from 0.0001 up to sixteen digits before the point. A whole real
keeps a `.0`, so that it does not look like an integer. -/
def layout : Decimal.Layout where
  inFull e := -4 ≤ e && e ≤ 15
  wholeTail := ['.', '0']

def text : Value → String
  | integer n => toString n.toInt
  | real x => x.text layout
  | boolean true => "true"
  | boolean false => "false"

/-- Equality of contents: values of different kinds differ, both zeros are equal and a `nan` differs
from itself. -/
def same : Value → Value → Bool
  | integer a, integer b => a == b
  | real x, real y => x.sameValue y
  | boolean a, boolean b => a == b
  | _, _ => false

end Value

end BoundedScript
