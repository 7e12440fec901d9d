import BoundedScript.Integer64
import BoundedScript.Operator

/-! # Programs as trees

Statements and expressions form one type: assignments, conditionals, loops and blocks are nodes like
any other and may or may not have a value. Each node carries the line that errors in it report.
-/

namespace BoundedScript

/-- The constants that a script can spell. Real numbers arise only from arithmetic. -/
inductive Literal where
  | integer (value : Integer64)
  | boolean (value : Bool)
  deriving DecidableEq, Repr

inductive Expr where
  | literal (value : Literal) (line : Nat)
  | var (name : String) (line : Nat)
  | arithmetic (op : ArithmeticOp) (left right : Expr) (line : Nat)
  | comparison (op : ComparisonOp) (left right : Expr) (line : Nat)
  | logical (op : LogicalOp) (left right : Expr) (line : Nat)
  | unary (op : UnaryOp) (operand : Expr) (line : Nat)
  | assignment (name : String) (value : Expr) (line : Nat)
  | conditional (condition thenBranch : Expr) (elseBranch : Option Expr) (line : Nat)
  | whileLoop (condition body : Expr) (line : Nat)
  | forLoop (counter : String) (first last body : Expr) (line : Nat)
  | block (statements : List Expr) (line : Nat)
  deriving Inhabited, Repr, BEq

namespace Expr

def line : Expr → Nat
  | literal _ line | var _ line | arithmetic _ _ _ line | comparison _ _ _ line
  | logical _ _ _ line | unary _ _ line | assignment _ _ line | conditional _ _ _ line
  | whileLoop _ _ line | forLoop _ _ _ _ line | block _ line => line

end Expr

end BoundedScript
