import BoundedScript.Parser.Expression

/-! # Statements and programs

Statements are parted by line breaks and semicolons. A program is a list of statements that takes up
all tokens, and a block is one between braces.
-/

namespace BoundedScript.Parser

mutual

/-- A conditional, a loop, an assignment or an expression. An update `x += e` stands for
`x = x + e`. -/
def statement (ts : List Located) : Result Expr ts :=
  match ts with
  | ⟨.keyword .ifWord, line⟩ :: rest => conditional (⟨.keyword .ifWord, line⟩ :: rest)
  | ⟨.keyword .whileWord, line⟩ :: rest => whileLoop (⟨.keyword .whileWord, line⟩ :: rest)
  | ⟨.keyword .forWord, line⟩ :: rest => forLoop (⟨.keyword .forWord, line⟩ :: rest)
  | ⟨.identifier name, line⟩ :: ⟨.assign, _⟩ :: rest => do
    let ⟨value, rest, h⟩ ← expression rest
    return ⟨.assignment name value line, rest, by simp only [List.length_cons]; omega⟩
  | ⟨.identifier name, line⟩ :: ⟨.update op, _⟩ :: rest => do
    let ⟨value, rest, h⟩ ← expression rest
    let updated := .arithmetic op.operation (.var name line) value line
    return ⟨.assignment name updated line, rest, by simp only [List.length_cons]; omega⟩
  | ts => expression ts
termination_by ts.length * 4 + 1
decreasing_by all_goals omega

/-- `if condition { … }` and what may follow: `else { … }` or `else if …`. -/
def conditional (ts : List Located) : Result Expr ts := do
  let ⟨line, rest₁, h₁⟩ ← expect .ifWord (.keyword .ifWord) ts
  let ⟨condition, rest₂, h₂⟩ ← expression rest₁
  let ⟨thenBranch, rest₃, h₃⟩ ← block rest₂
  match h₄ : afterElse? rest₃ with
  | none => return ⟨.conditional condition thenBranch none line, rest₃, by omega⟩
  | some rest₄ =>
    match rest₄, length_of_afterElse? h₄ with
    | [], _ => .error ⟨⟨.endOfInput, line⟩, []⟩
    | ⟨.keyword .ifWord, l⟩ :: after, h₅ => do
      let ⟨elseBranch, rest, h₆⟩ ← conditional (⟨.keyword .ifWord, l⟩ :: after)
      return ⟨.conditional condition thenBranch (some elseBranch) line, rest, by omega⟩
    | ⟨.openBrace, l⟩ :: after, h₅ => do
      let ⟨elseBranch, rest, h₆⟩ ← block (⟨.openBrace, l⟩ :: after)
      return ⟨.conditional condition thenBranch (some elseBranch) line, rest, by omega⟩
    | ⟨t, l⟩ :: after, _ => .error ⟨⟨.expected .elseBranch t, l⟩, ⟨t, l⟩ :: after⟩
termination_by ts.length * 4
decreasing_by all_goals omega

def whileLoop (ts : List Located) : Result Expr ts := do
  let ⟨line, rest₁, h₁⟩ ← expect .whileWord (.keyword .whileWord) ts
  let ⟨condition, rest₂, h₂⟩ ← expression rest₁
  let ⟨body, rest₃, h₃⟩ ← block rest₂
  return ⟨.whileLoop condition body line, rest₃, by omega⟩
termination_by ts.length * 4
decreasing_by all_goals omega

def forLoop (ts : List Located) : Result Expr ts := do
  let ⟨line, rest₁, h₁⟩ ← expect .forWord (.keyword .forWord) ts
  let ⟨counter, rest₂, h₂⟩ ← loopVariable rest₁
  let ⟨_, rest₃, h₃⟩ ← expect .inWord (.keyword .inWord) rest₂
  let ⟨first, rest₄, h₄⟩ ← expression rest₃
  let ⟨_, rest₅, h₅⟩ ← expect .toWord (.keyword .toWord) rest₄
  let ⟨last, rest₆, h₆⟩ ← expression rest₅
  let ⟨body, rest₇, h₇⟩ ← block rest₆
  return ⟨.forLoop counter first last body line, rest₇, by omega⟩
termination_by ts.length * 4
decreasing_by all_goals omega

def block (ts : List Located) : Result Expr ts := do
  let ⟨line, rest₁, h₁⟩ ← expect .openingBrace .openBrace ts
  let ⟨statements, rest₂, h₂⟩ ← blockBody line rest₁
  return ⟨.block statements line, rest₂, by omega⟩
termination_by ts.length * 4
decreasing_by all_goals omega

/-- Statements up to the brace that closes the block opened on the given line. -/
def blockBody (line : Nat) (ts : List Located) : Result (List Expr) ts :=
  match h₁ : skipSeparators ts with
  | [] => .error ⟨⟨.unclosedBlock, line⟩, []⟩
  | ⟨.closeBrace, _⟩ :: rest => .ok ⟨[], rest, length_of_skipSeparators h₁⟩
  | t :: after => do
    have := length_of_skipSeparators h₁
    let ⟨first, rest₂, h₂⟩ ← statement (t :: after)
    endStatement true rest₂
    let ⟨others, rest₃, h₃⟩ ← blockBody line rest₂
    return ⟨first :: others, rest₃, by omega⟩
termination_by ts.length * 4 + 2
decreasing_by all_goals omega

end

def program (ts : List Located) : Except Failure (List Expr) :=
  match h₁ : skipSeparators ts with
  | [] => .ok []
  | t :: after => do
    have := length_of_skipSeparators h₁
    let ⟨first, rest, _⟩ ← statement (t :: after)
    endStatement false rest
    let others ← program rest
    return first :: others
termination_by ts.length
decreasing_by all_goals omega

def lastLine (ts : List Located) : Nat := (ts.getLast?.map Located.line).getD 1

/-- The tree of a program: a block on line 1. -/
def parse (ts : List Located) : Except ParseError Expr :=
  match program ts with
  | .ok statements => .ok (.block statements 1)
  | .error failure => .error (failure.error.locateEnd (lastLine ts))

end BoundedScript.Parser
