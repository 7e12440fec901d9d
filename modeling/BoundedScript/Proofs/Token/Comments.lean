import BoundedScript.Proofs.Lines
import BoundedScript.Proofs.Token.Segmentation
import Mathlib.Data.List.TakeWhile

/-!
# Comments

A comment at the end of a line goes unnoticed. Its mark goes on with no lexeme, so that the text
before it is cut as if nothing followed, whether it ends within a number, a word or a symbol or
cannot be cut at all. Only a text that itself ends in a comment takes the mark in, and then it
belongs to that comment. So a source is scanned line by line, each line without its comment.
-/

namespace BoundedScript

namespace Lexeme

variable {text : List Char}

theorem endsLexemes_commentMark : EndsLexemes '#' := ⟨rfl, rfl, rfl, by decide⟩

theorem next_commentMark (h : '\n' ∉ text) : next '#' text = (.skipped, []) := by
  have hline : text.dropWhile (· != '\n') = [] := by
    rw [List.dropWhile_eq_nil_iff]
    intro c hc
    rw [bne_iff_ne]
    rintro rfl
    exact h hc
  rw [← hline]
  rfl

/-- A comment comes after the first lexeme of a text or within it. -/
theorem next_append_comment (h : '\n' ∉ text) (c : Char) (cs : List Char) :
    next c (cs ++ '#' :: text) = ((next c cs).1, (next c cs).2 ++ '#' :: text) ∨
      next c cs = (.skipped, []) ∧ next c (cs ++ '#' :: text) = (.skipped, []) := by
  by_cases hc : c = '#'
  · subst hc
    by_cases hcs : '\n' ∈ cs
    · obtain ⟨before, after, rfl⟩ := List.append_of_mem hcs
      left
      rw [List.append_assoc, List.cons_append, next_append_newline, next_append_newline,
        List.append_assoc, List.cons_append]
    · have hjoined : '\n' ∉ cs ++ '#' :: text := by simp [hcs, h]
      exact .inr ⟨next_commentMark hcs, next_commentMark hjoined⟩
  · exact .inl (next_append_cons endsLexemes_commentMark (fun hmark => absurd hmark hc) cs text)

theorem next_append_comment_of_ne (h : '\n' ∉ text) (c : Char) (cs : List Char)
    (hne : (next c cs).1 ≠ .skipped) :
    next c (cs ++ '#' :: text) = ((next c cs).1, (next c cs).2 ++ '#' :: text) := by
  rcases next_append_comment h c cs with hnext | ⟨hskipped, -⟩
  · exact hnext
  · exact absurd (congrArg Prod.fst hskipped) hne

end Lexeme

open Lexeme

namespace Token

variable {text : List Char}

theorem scanFrom_append_comment (h : '\n' ∉ text) (line : Nat) (cs : List Char) :
    scanFrom line (cs ++ '#' :: text) = scanFrom line cs := by
  fun_induction scanFrom line cs with
  | case1 line =>
    rw [List.nil_append, scanFrom_of_skipped (by rw [next_commentMark h]), next_commentMark h,
      scanFrom]
  | case2 line c cs _ rest hskipped ih =>
    rw [List.cons_append]
    rcases next_append_comment h c cs with hnext | ⟨hend, hnext⟩
    · rw [scanFrom_of_skipped (by rw [hnext, hskipped]), hnext]
      exact ih
    · have hrest : rest = [] := congrArg Prod.snd hend
      rw [scanFrom_of_skipped (by rw [hnext]), hnext, hrest]
  | case3 line c cs _ rest hnewline ih =>
    have hnext := next_append_comment_of_ne h c cs (by simp [hnewline])
    rw [List.cons_append, scanFrom_of_newline (by rw [hnext, hnewline]), hnext, ih]
  | case4 line c cs _ rest t ht htoken ih =>
    have hnext := next_append_comment_of_ne h c cs (by simp [htoken])
    rw [List.cons_append, scanFrom_of_token (by rw [hnext, htoken]) ht, hnext, ih]
  | case5 line c cs _ hoversized =>
    have hnext := next_append_comment_of_ne h c cs (by simp [hoversized])
    rw [List.cons_append, scanFrom_of_oversized (by rw [hnext, hoversized])]
  | case6 line c cs _ d hunknown =>
    have hnext := next_append_comment_of_ne h c cs (by simp [hunknown])
    rw [List.cons_append, scanFrom_of_unknown (by rw [hnext, hunknown])]

theorem scan_append_comment {k : String} (hk : k = "" ∨ IsComment k.toList) (a : String) :
    scan (a ++ k) = scan a := by
  rcases hk with rfl | ⟨text, hk, htext⟩
  · rw [String.append_empty]
  · unfold scan
    rw [String.toList_append, hk, scanFrom_append_comment htext]

end Token

theorem count_newline_comment {k : String} (hk : k = "" ∨ IsComment k.toList) :
    k.toList.count '\n' = 0 := by
  rcases hk with rfl | ⟨text, hk, htext⟩
  · rfl
  · rw [hk, List.count_cons_of_ne (by decide), List.count_eq_zero_of_not_mem htext]

/-- A source is scanned line by line, and comments at the ends of lines make no difference. The
first error of the first part is the error of the whole. What comes after the line break has the
tokens or the error that it has by itself, further down. -/
theorem lines_are_scanned_apart_from_comments {k : String} (hk : k = "" ∨ IsComment k.toList)
    (a b : String) :
    let d := 1 + a.toList.count '\n'
    Token.scan (a ++ k ++ "\n" ++ b) =
      match Token.scan a, Token.scan b with
      | .error e, _ => .error e
      | .ok _, .error e => .error ⟨e.cause, e.line + d⟩
      | .ok us, .ok vs => .ok (us ++ ⟨.newline, d + 1⟩ :: vs.map (Located.mapLine (· + d))) := by
  intro d
  have hcount : (a ++ k).toList.count '\n' = a.toList.count '\n' := by
    rw [String.toList_append, List.count_append, count_newline_comment hk, Nat.add_zero]
  have hlines := Token.scan_append_line (a ++ k) b
  rw [Token.scan_append_comment hk, hcount] at hlines
  exact hlines

/-- A comment mark after a lone `!` leaves the error alone, one after a number or within another
comment leaves the tokens alone, and the lines of the second part count on. -/
theorem comments_after_symbol_and_comment_are_skipped :
    IsComment "#= \"é\"".toList ∧
      Token.scan ("1 !" ++ "#= \"é\"" ++ "\n" ++ "x") = .error ⟨.unknownCharacter '!', 1⟩ ∧
      Token.scan ("a\n7" ++ "#= \"é\"" ++ "\n" ++ "b\n$") = .error ⟨.unknownCharacter '$', 4⟩ ∧
      Token.scan ("a / #2" ++ "#= \"é\"" ++ "\n" ++ "b") =
        .ok [⟨.identifier "a", 1⟩, ⟨.arithmetic .div, 1⟩, ⟨.newline, 2⟩, ⟨.identifier "b", 2⟩] := by
  have hk : IsComment "#= \"é\"".toList := ⟨"= \"é\"".toList, rfl, by decide⟩
  have hmark := lines_are_scanned_apart_from_comments (.inr hk) "1 !" "x"
  have hlater := lines_are_scanned_apart_from_comments (.inr hk) "a\n7" "b\n$"
  have htokens := lines_are_scanned_apart_from_comments (.inr hk) "a / #2" "b"
  refine ⟨hk, ?_, ?_, ?_⟩
  · rw [hmark]
    decide +kernel
  · rw [hlater]
    decide +kernel
  · rw [htokens]
    decide +kernel

end BoundedScript
