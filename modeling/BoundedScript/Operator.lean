/-! # Operators of the language

The tree of a program and the tokens of its text share these operators, so a token never has to be
matched with the operation that it stands for.
-/

namespace BoundedScript

inductive ArithmeticOp where
  | add | sub | mul | div | floorDiv | pow
  deriving DecidableEq, Repr

inductive ComparisonOp where
  | eq | ne | lt | gt | le | ge
  deriving DecidableEq, Repr

inductive LogicalOp where
  | and | or
  deriving DecidableEq, Repr

inductive UnaryOp where
  | not | negate
  deriving DecidableEq, Repr

/-- The operators that `name op= value` updates a variable with. -/
inductive UpdateOp where
  | add | sub | mul | div
  deriving DecidableEq, Repr

def ArithmeticOp.spelling : ArithmeticOp → String
  | .add => "+"
  | .sub => "-"
  | .mul => "*"
  | .div => "/"
  | .floorDiv => "//"
  | .pow => "^"

def ComparisonOp.spelling : ComparisonOp → String
  | .eq => "=="
  | .ne => "!="
  | .lt => "<"
  | .gt => ">"
  | .le => "<="
  | .ge => ">="

def LogicalOp.spelling : LogicalOp → String
  | .and => "and"
  | .or => "or"

def UnaryOp.spelling : UnaryOp → String
  | .not => "not"
  | .negate => "-"

/-- The left operand that settles the result: `or` is true as soon as it is, `and` false. -/
def LogicalOp.decisive : LogicalOp → Bool
  | .and => false
  | .or => true

def UpdateOp.operation : UpdateOp → ArithmeticOp
  | .add => .add
  | .sub => .sub
  | .mul => .mul
  | .div => .div

/-- Sums and differences bind looser than the other operations. -/
def ArithmeticOp.isAdditive : ArithmeticOp → Bool
  | .add | .sub => true
  | _ => false

end BoundedScript
