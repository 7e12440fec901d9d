import BoundedScript.Token

/-! # Why a text is not a program

An error is a cause and a line. Only the wording of the causes is in this file; where each of them
arises is decided by the scanner and the parser.
-/

namespace BoundedScript

/-- What the grammar asks for at a place where something else was found. -/
inductive Expectation where
  | ifWord
  | whileWord
  | forWord
  | loopVariable
  | inWord
  | toWord
  | openingBrace
  | elseBranch
  | endOfStatement
  deriving DecidableEq, Repr

def Expectation.text : Expectation → String
  | .ifWord => "'if'"
  | .whileWord => "'while'"
  | .forWord => "'for'"
  | .loopVariable => "identifier"
  | .inWord => "'in' after loop variable"
  | .toWord => "'to' in for range"
  | .openingBrace => "'\x7b'"
  | .elseBranch => "'if' or '\x7b' after else"
  | .endOfStatement => "end of statement"

namespace ParseError

inductive Cause where
  | unknownCharacter (c : Char)
  | literalTooLarge
  | unexpected (found : Token)
  | expected (what : Expectation) (found : Token)
  | endOfInput
  | unclosedParenthesis
  | unclosedBlock
  deriving DecidableEq, Repr

def Cause.text : Cause → String
  | .unknownCharacter c => "Unexpected token: " ++ String.singleton c
  | .literalTooLarge => "Literal is too large"
  | .unexpected found => "Unexpected token: " ++ found.name
  | .expected what found => "Unexpected token: Expected " ++ what.text ++ ", found " ++ found.name
  | .endOfInput => "Unexpected end of input"
  | .unclosedParenthesis => "Expected closing parenthesis ')' but none found"
  | .unclosedBlock => "Expected closing brace '\x7d' but none found"

end ParseError

/-- Lines count from 1. At the end of the input a parser knows no line; it reports line 0, and
whoever knows the last line fills it in. -/
structure ParseError where
  cause : ParseError.Cause
  line : Nat
  deriving DecidableEq, Repr

namespace ParseError

def message (e : ParseError) : String := s!"Error on line {e.line}: " ++ e.cause.text ++ "."

/-- Puts an end of input for which no line is known on the given line. -/
def locateEnd (line : Nat) (e : ParseError) : ParseError :=
  if e = ⟨.endOfInput, 0⟩ then ⟨.endOfInput, line⟩ else e

end ParseError

end BoundedScript
