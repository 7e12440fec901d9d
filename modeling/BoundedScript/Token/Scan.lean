import BoundedScript.ParseError

/-! # Scanning a script

The text is cut from left to right into lexemes, each the longest one possible at its place: runs of
blanks, comments, numbers, words and symbols. `Lexeme.next` takes one lexeme off and `Token.scan`
repeats it, counting lines.
-/

namespace BoundedScript

/-- What stands at the front of a text. -/
inductive Lexeme where
  | skipped
  | token (t : Token)
  | oversized
  | unknown (c : Char)
  deriving DecidableEq, Repr

namespace Lexeme

/-- Space, tab, carriage return and form feed part tokens and mean nothing else. -/
def isBlank (c : Char) : Bool := c == ' ' || c == '\t' || c == '\r' || c == '\x0c'

def isNameStart (c : Char) : Bool := c.isAlpha || c == '_'

def isNameChar (c : Char) : Bool := c.isAlphanum || c == '_'

def ofInt (n : Int) : Lexeme :=
  match Integer64.ofInt? n with
  | some k => .token (.integer k)
  | none => .oversized

def ofDigits (digits : List Char) : Lexeme := ofInt (Nat.ofDigitChars 10 digits 0)

/-- A word is reserved or names a variable. -/
def ofWord (word : List Char) : Lexeme :=
  .token ((Token.words.find? (·.spelling.toList == word)).getD (.identifier (.ofList word)))

/-- The longest lexeme at the front of `c :: cs`, and what follows it. -/
def next (c : Char) (cs : List Char) : Lexeme × List Char :=
  if isBlank c then (.skipped, cs.dropWhile isBlank)
  else if c = '#' then (.skipped, cs.dropWhile (· != '\n'))
  else if c.isDigit then (ofDigits (c :: cs.takeWhile Char.isDigit), cs.dropWhile Char.isDigit)
  else if isNameStart c then (ofWord (c :: cs.takeWhile isNameChar), cs.dropWhile isNameChar)
  else
    match Token.symbols.find? (·.spelling.toList.isPrefixOf (c :: cs)) with
    | some t => (.token t, cs.drop (t.spelling.length - 1))
    | none => (.unknown c, cs)

theorem length_next_le (c : Char) (cs : List Char) : (next c cs).2.length ≤ cs.length := by
  have hw (p : Char → Bool) : (cs.dropWhile p).length ≤ cs.length :=
    (List.dropWhile_sublist p).length_le
  unfold next
  repeat' split
  all_goals simp [hw]

end Lexeme

namespace Token

/-- The tokens of a text whose first line has the number `line`. -/
def scanFrom (line : Nat) : List Char → Except ParseError (List Located)
  | [] => .ok []
  | c :: cs =>
    have := Lexeme.length_next_le c cs
    let rest := (Lexeme.next c cs).2
    match (Lexeme.next c cs).1 with
    | .skipped => scanFrom line rest
    | .token .newline => (⟨.newline, line + 1⟩ :: ·) <$> scanFrom (line + 1) rest
    | .token t => (⟨t, line⟩ :: ·) <$> scanFrom line rest
    | .oversized => .error ⟨.literalTooLarge, line⟩
    | .unknown c => .error ⟨.unknownCharacter c, line⟩
termination_by cs => cs.length
decreasing_by all_goals (simp only [List.length_cons]; omega)

/-- The tokens of a script, or the first error in it. -/
def scan (source : String) : Except ParseError (List Located) := scanFrom 1 source.toList

end Token

end BoundedScript
