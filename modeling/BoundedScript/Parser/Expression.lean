import BoundedScript.Expr
import BoundedScript.Parser.Basic

/-! # Expressions

Binary operators live on five levels, from `or` to the products, and `chain` reads a
left-associative chain on any of them. Powers stand on the level of products. A `not` stands between
`and` and the comparisons, and a minus sign binds tighter than every binary operator.
-/

namespace BoundedScript.Parser

/-- The levels of binary operators, from the loosest to the tightest. -/
inductive Level where
  | disjunction | conjunction | comparison | sum | product
  deriving DecidableEq, Repr

namespace Level

/-- The node that a token makes of two operands on this level, if it is an operator of the level. -/
def join? : Level → Token → Option (Expr → Expr → Nat → Expr)
  | disjunction, .logical .or => some (.logical .or)
  | conjunction, .logical .and => some (.logical .and)
  | comparison, .comparison op => some (.comparison op)
  | sum, .arithmetic op => if op.isAdditive then some (.arithmetic op) else none
  | product, .arithmetic op => if op.isAdditive then none else some (.arithmetic op)
  | _, _ => none

/-- Orders the parsers that call each other on the same tokens. -/
def rank : Level → Nat
  | disjunction => 11
  | conjunction => 9
  | comparison => 6
  | sum => 4
  | product => 2

theorem rank_lt (level : Level) : level.rank < 16 := by
  cases level <;> decide

end Level

mutual

/-- A chain of operands joined by the operators of a level, the first operators innermost. -/
def chain (level : Level) (ts : List Located) : Result Expr ts := do
  let ⟨first, rest, h⟩ ← operand level ts
  extend level ts first rest h
termination_by ts.length * 16 + level.rank + 1
decreasing_by all_goals omega

/-- Goes on with a chain whose tokens up to `rest` make up `left`. -/
def extend (level : Level) (ts : List Located) (left : Expr) (rest : List Located)
    (h : rest.length < ts.length) : Result Expr ts :=
  match rest with
  | [] => .ok ⟨left, [], h⟩
  | ⟨t, line⟩ :: after =>
    match level.join? t with
    | none => .ok ⟨left, ⟨t, line⟩ :: after, h⟩
    | some join => do
      let ⟨right, rest, h'⟩ ← operand level after
      extend level ts (join left right line) rest (by simp only [List.length_cons] at h; omega)
termination_by rest.length * 16
decreasing_by
  · have := level.rank_lt
    simp only [List.length_cons]; omega
  · simp only [List.length_cons]; omega

/-- An operand of a chain: a chain on the next level, or a negation below `and`, or a signed
expression below the products. -/
def operand (level : Level) (ts : List Located) : Result Expr ts :=
  match level with
  | .disjunction => chain .conjunction ts
  | .conjunction => negation ts
  | .comparison => chain .sum ts
  | .sum => chain .product ts
  | .product => signed ts
termination_by ts.length * 16 + level.rank
decreasing_by all_goals (simp only [Level.rank]; omega)

def negation (ts : List Located) : Result Expr ts :=
  match ts with
  | ⟨.negation, line⟩ :: rest => do
    let ⟨e, rest, h⟩ ← negation rest
    return ⟨.unary .not e line, rest, Nat.lt_succ_of_lt h⟩
  | ts => chain .comparison ts
termination_by ts.length * 16 + 8
decreasing_by
  · simp only [List.length_cons]; omega
  · simp only [Level.rank]; omega

def signed (ts : List Located) : Result Expr ts :=
  match ts with
  | ⟨.arithmetic .sub, line⟩ :: rest => do
    let ⟨e, rest, h⟩ ← signed rest
    return ⟨.unary .negate e line, rest, Nat.lt_succ_of_lt h⟩
  | ts => primary ts
termination_by ts.length * 16 + 1
decreasing_by
  · simp only [List.length_cons]; omega
  · omega

/-- A literal, a variable or something in parentheses. -/
def primary (ts : List Located) : Result Expr ts :=
  match ts with
  | [] => .error ⟨⟨.endOfInput, 0⟩, []⟩
  | ⟨.integer n, line⟩ :: rest => .ok ⟨.literal (.integer n) line, rest, Nat.lt_succ_self _⟩
  | ⟨.boolean b, line⟩ :: rest => .ok ⟨.literal (.boolean b) line, rest, Nat.lt_succ_self _⟩
  | ⟨.identifier name, line⟩ :: rest => .ok ⟨.var name line, rest, Nat.lt_succ_self _⟩
  | ⟨.openParen, line⟩ :: rest => do
    let ⟨e, rest, h⟩ ← grouping line rest
    return ⟨e, rest, Nat.lt_succ_of_lt h⟩
  | ⟨t, line⟩ :: rest => .error ⟨⟨.unexpected t, line⟩, rest⟩
termination_by ts.length * 16
decreasing_by all_goals (simp only [List.length_cons]; omega)

/-- An expression or an assignment up to the parenthesis that closes the one on the given line. -/
def grouping (line : Nat) (ts : List Located) : Result Expr ts :=
  match ts with
  | ⟨.identifier name, _⟩ :: ⟨.assign, _⟩ :: rest => do
    let ⟨value, rest, h⟩ ← chain .disjunction rest
    let ⟨_, rest, h'⟩ ← closeParen line rest
    return ⟨.assignment name value line, rest, by simp only [List.length_cons]; omega⟩
  | ts => do
    let ⟨e, rest, h⟩ ← chain .disjunction ts
    let ⟨_, rest, h'⟩ ← closeParen line rest
    return ⟨e, rest, Nat.lt_trans h' h⟩
termination_by ts.length * 16 + 13
decreasing_by
  · simp only [Level.rank, List.length_cons]; omega
  · simp only [Level.rank]; omega

end

def expression (ts : List Located) : Result Expr ts := chain .disjunction ts

end BoundedScript.Parser
