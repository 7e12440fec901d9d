import BoundedScript.ParseError

/-! # Taking tokens off a list

A parser takes tokens off the front of a list and returns what is left. Its result carries a proof
that something was taken, which is why the loops over statements and operators end. A failure keeps
the tokens that had not been taken when it arose.
-/

namespace BoundedScript.Parser

/-- An error and the tokens that were left when it arose. -/
structure Failure where
  error : ParseError
  rest : List Located
  deriving DecidableEq, Repr

/-- A value read off the front of `input`, and what is left of it. -/
structure Parsed (α : Type) (input : List Located) where
  value : α
  rest : List Located
  shorter : rest.length < input.length

abbrev Result (α : Type) (input : List Located) : Type := Except Failure (Parsed α input)

/-- Takes the wanted token and returns its line. Any other token is taken as well and reported. -/
def expect (what : Expectation) (wanted : Token) : (ts : List Located) → Result Nat ts
  | [] => .error ⟨⟨.endOfInput, 0⟩, []⟩
  | ⟨t, line⟩ :: rest =>
    if t = wanted then .ok ⟨line, rest, Nat.lt_succ_self _⟩
    else .error ⟨⟨.expected what t, line⟩, rest⟩

def loopVariable : (ts : List Located) → Result String ts
  | [] => .error ⟨⟨.endOfInput, 0⟩, []⟩
  | ⟨.identifier name, _⟩ :: rest => .ok ⟨name, rest, Nat.lt_succ_self _⟩
  | ⟨t, line⟩ :: rest => .error ⟨⟨.expected .loopVariable t, line⟩, rest⟩

/-- Takes the parenthesis that closes the one on the given line. -/
def closeParen (line : Nat) : (ts : List Located) → Result Unit ts
  | ⟨.closeParen, _⟩ :: rest => .ok ⟨(), rest, Nat.lt_succ_self _⟩
  | ts => .error ⟨⟨.unclosedParenthesis, line⟩, ts.tail⟩

def skipSeparators (ts : List Located) : List Located := ts.dropWhile (·.token.isSeparator)

theorem length_of_skipSeparators {ts rest : List Located} {t : Located}
    (h : skipSeparators ts = t :: rest) : (t :: rest).length ≤ ts.length := by
  rw [← h]
  exact (List.dropWhile_sublist _).length_le

/-- Checks that a statement ends here: at a separator, at the end of the input, or in a block at its
closing brace. Takes nothing. -/
def endStatement (inBlock : Bool) : List Located → Except Failure Unit
  | [] => .ok ()
  | ⟨t, line⟩ :: rest =>
    if t.isSeparator || (inBlock && t == .closeBrace) then .ok ()
    else .error ⟨⟨.expected .endOfStatement t, line⟩, ⟨t, line⟩ :: rest⟩

/-- What follows an `else`, which may stand after line breaks. -/
def afterElse? : List Located → Option (List Located)
  | ⟨.newline, _⟩ :: rest => afterElse? rest
  | ⟨.keyword .elseWord, _⟩ :: rest => some rest
  | _ => none

theorem length_of_afterElse? {ts rest : List Located} (h : afterElse? ts = some rest) :
    rest.length < ts.length := by
  fun_induction afterElse? ts with
  | case1 line ts ih => exact Nat.lt_succ_of_lt (ih h)
  | case2 line ts => simp_all
  | case3 => contradiction

end BoundedScript.Parser
