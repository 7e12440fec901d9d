import BoundedScript.Integer64
import BoundedScript.Operator
import BoundedScript.Text.Printed

/-! # Tokens

A token has a spelling, by which it stands in a script, and a name, by which an error message
mentions it.
-/

namespace BoundedScript

inductive Keyword where
  | ifWord | elseWord | whileWord | forWord | inWord | toWord
  deriving DecidableEq, Repr

inductive Token where
  | integer (value : Integer64)
  | boolean (value : Bool)
  | identifier (name : String)
  | logical (op : LogicalOp)
  | negation
  | keyword (word : Keyword)
  | comparison (op : ComparisonOp)
  | arithmetic (op : ArithmeticOp)
  | update (op : UpdateOp)
  | assign
  | openParen
  | closeParen
  | openBrace
  | closeBrace
  | semicolon
  | newline
  | comment
  deriving DecidableEq, Repr

def Keyword.spelling : Keyword → String
  | .ifWord => "if"
  | .elseWord => "else"
  | .whileWord => "while"
  | .forWord => "for"
  | .inWord => "in"
  | .toWord => "to"

namespace Token

/-- The text of a token in a script. A comment is spelled by its mark alone. -/
def spelling : Token → String
  | integer value => toString value.toInt
  | boolean true => "true"
  | boolean false => "false"
  | identifier name => name
  | logical op => op.spelling
  | negation => "not"
  | keyword word => word.spelling
  | comparison op => op.spelling
  | arithmetic op => op.spelling
  | update op => op.operation.spelling ++ "="
  | assign => "="
  | openParen => "("
  | closeParen => ")"
  | openBrace => "\x7b"
  | closeBrace => "\x7d"
  | semicolon => ";"
  | newline => "\n"
  | comment => "#"

/-- A name between quotes. Quotes and backslashes are escaped, and so is all that is not printed:
line breaks, tabs, carriage returns and the null character have a letter or digit for it, and other
characters are given by number. -/
def quoted (name : String) : String :=
  .ofList ('"' :: name.toList.flatMap escape ++ ['"'])
where
  escape (c : Char) : List Char :=
    match c with
    | '"' => ['\\', '"']
    | '\\' => ['\\', '\\']
    | '\n' => ['\\', 'n']
    | '\t' => ['\\', 't']
    | '\r' => ['\\', 'r']
    | '\x00' => ['\\', '0']
    | _ =>
      if Text.isPrinted c then [c]
      else ['\\', 'u', '\x7b'] ++ Nat.toDigits 16 c.toNat ++ ['\x7d']

/-- How an error message mentions the token. -/
def name : Token → String
  | integer value => "Integer(" ++ toString value.toInt ++ ")"
  | boolean true => "Bool(true)"
  | boolean false => "Bool(false)"
  | identifier text => "Identifier(" ++ quoted text ++ ")"
  | logical .and => "And"
  | logical .or => "Or"
  | negation => "Not"
  | keyword .ifWord => "If"
  | keyword .elseWord => "Else"
  | keyword .whileWord => "While"
  | keyword .forWord => "For"
  | keyword .inWord => "In"
  | keyword .toWord => "To"
  | comparison .eq => "EqualEqual"
  | comparison .ne => "BangEqual"
  | comparison .lt => "Less"
  | comparison .gt => "Greater"
  | comparison .le => "LessEqual"
  | comparison .ge => "GreaterEqual"
  | arithmetic .add => "Plus"
  | arithmetic .sub => "Minus"
  | arithmetic .mul => "Star"
  | arithmetic .div => "Slash"
  | arithmetic .floorDiv => "DoubleSlash"
  | arithmetic .pow => "Caret"
  | update .add => "PlusAssign"
  | update .sub => "MinusAssign"
  | update .mul => "MulAssign"
  | update .div => "DivAssign"
  | assign => "Equals"
  | openParen => "LParen"
  | closeParen => "RParen"
  | openBrace => "LBrace"
  | closeBrace => "RBrace"
  | semicolon => "Semicolon"
  | newline => "NewLine"
  | comment => "Comment"

/-- The words that no variable may have as its name. -/
def words : List Token :=
  [boolean true, boolean false, logical .and, logical .or, negation, keyword .ifWord,
    keyword .elseWord, keyword .whileWord, keyword .forWord, keyword .inWord, keyword .toWord]

/-- The tokens spelled with punctuation, the longer spellings first, so that the first match in
this order is the longest. -/
def symbols : List Token :=
  [update .add, update .sub, update .mul, update .div, arithmetic .floorDiv, comparison .eq,
    comparison .ne, comparison .le, comparison .ge, arithmetic .add, arithmetic .sub,
    arithmetic .mul, arithmetic .div, arithmetic .pow, openParen, closeParen, openBrace,
    closeBrace, semicolon, assign, comparison .lt, comparison .gt, newline]

def isSeparator : Token → Bool
  | newline | semicolon => true
  | _ => false

end Token

/-- A token and the line on which it stands. A line break stands on the line that it starts. -/
structure Located where
  token : Token
  line : Nat
  deriving DecidableEq, Repr

end BoundedScript
