import BoundedScript.Token.Scan
import Mathlib.Data.List.Find

/-!
# Scanning line by line

No lexeme runs past a line break, so what stands after one has no part in how the text before it is
scanned. The tokens after a line break are those of the text there, with the lines counted on.
-/

namespace BoundedScript

section

variable {p : Char → Bool} {d : Char} {cs ds : List Char}

theorem takeWhile_append_of_stop (hp : p d = false) :
    (cs ++ d :: ds).takeWhile p = cs.takeWhile p := by
  induction cs with
  | nil => simp [hp]
  | cons c cs ih => by_cases hc : p c = true <;> simp [hc, ih]

theorem dropWhile_append_of_stop (hp : p d = false) :
    (cs ++ d :: ds).dropWhile p = cs.dropWhile p ++ d :: ds := by
  induction cs with
  | nil => simp [hp]
  | cons c cs ih => by_cases hc : p c = true <;> simp [hc, ih]

theorem count_newline_dropWhile (hp : p '\n' = false) :
    (cs.dropWhile p).count '\n' = cs.count '\n' := by
  induction cs with
  | nil => rfl
  | cons c cs ih =>
    by_cases hc : p c = true
    · have hne : c ≠ '\n' := by
        rintro rfl
        rw [hp] at hc
        cases hc
      simp [hc, ih, hne]
    · simp [hc]

theorem isPrefix_append_cons_iff {spelling : List Char} (hs : d ∉ spelling) :
    spelling <+: cs ++ d :: ds ↔ spelling <+: cs := by
  induction spelling generalizing cs with
  | nil => simp
  | cons s spelling ih =>
    rw [List.mem_cons, not_or] at hs
    cases cs with
    | nil => simp [List.cons_prefix_cons, Ne.symm hs.1]
    | cons c cs => rw [List.cons_append, List.cons_prefix_cons, List.cons_prefix_cons, ih hs.2]

end

/-! ### The tables of tokens -/

namespace Token

theorem spelling_ne_nil_of_symbols : ∀ t ∈ symbols, t.spelling.toList ≠ [] := by decide

theorem count_newline_of_symbols :
    ∀ t ∈ symbols, t.spelling.toList.count '\n' = if t = newline then 1 else 0 := by decide

theorem ne_newline_of_words : ∀ t ∈ words, t ≠ newline := by decide

end Token

/-! ### One lexeme -/

namespace Lexeme

/-- The first character decides what kind of lexeme stands at the front. -/
theorem next_cases (c : Char) :
    (isBlank c = true ∧ ∀ cs, next c cs = (.skipped, cs.dropWhile isBlank)) ∨
    (c = '#' ∧ ∀ cs, next c cs = (.skipped, cs.dropWhile (· != '\n'))) ∨
    (c.isDigit = true ∧
      ∀ cs, next c cs = (ofDigits (c :: cs.takeWhile Char.isDigit), cs.dropWhile Char.isDigit)) ∨
    (isNameStart c = true ∧
      ∀ cs, next c cs = (ofWord (c :: cs.takeWhile isNameChar), cs.dropWhile isNameChar)) ∨
    ∀ cs,
      (∃ t, Token.symbols.find? (·.spelling.toList.isPrefixOf (c :: cs)) = some t ∧
        next c cs = (.token t, cs.drop (t.spelling.length - 1))) ∨
      (Token.symbols.find? (·.spelling.toList.isPrefixOf (c :: cs)) = none ∧
        next c cs = (.unknown c, cs)) := by
  unfold next
  by_cases hb : isBlank c = true
  · exact .inl ⟨hb, fun cs => if_pos hb⟩
  by_cases hc : c = '#'
  · exact .inr (.inl ⟨hc, fun cs => by rw [if_neg hb, if_pos hc]⟩)
  by_cases hd : c.isDigit = true
  · exact .inr (.inr (.inl ⟨hd, fun cs => by rw [if_neg hb, if_neg hc, if_pos hd]⟩))
  by_cases hn : isNameStart c = true
  · refine .inr (.inr (.inr (.inl ⟨hn, fun cs => ?_⟩)))
    rw [if_neg hb, if_neg hc, if_neg hd, if_pos hn]
  · refine .inr (.inr (.inr (.inr fun cs => ?_)))
    rw [if_neg hb, if_neg hc, if_neg hd, if_neg hn]
    cases ht : Token.symbols.find? (·.spelling.toList.isPrefixOf (c :: cs)) with
    | some t => exact .inl ⟨t, rfl, rfl⟩
    | none => exact .inr ⟨rfl, rfl⟩

/-- A character that goes on with no lexeme. Only a comment takes it in. -/
structure EndsLexemes (d : Char) : Prop where
  blanks : isBlank d = false
  digits : d.isDigit = false
  word : isNameChar d = false
  symbol : ∀ t ∈ Token.symbols, d ∉ t.spelling.toList.tail

theorem endsLexemes_newline : EndsLexemes '\n' := ⟨rfl, rfl, rfl, by decide⟩

variable {d : Char}

theorem find?_symbols_append_cons (hd : EndsLexemes d) (c : Char) (cs ds : List Char) :
    Token.symbols.find? (·.spelling.toList.isPrefixOf (c :: (cs ++ d :: ds))) =
      Token.symbols.find? (·.spelling.toList.isPrefixOf (c :: cs)) := by
  apply List.find?_congr
  intro t ht
  have htail := hd.symbol t ht
  rw [Bool.eq_iff_iff, List.isPrefixOf_iff_prefix, List.isPrefixOf_iff_prefix]
  cases hs : t.spelling.toList with
  | nil => simp
  | cons s spelling =>
    rw [hs, List.tail_cons] at htail
    rw [List.cons_prefix_cons, List.cons_prefix_cons, isPrefix_append_cons_iff htail]

theorem eq_spelling_append_of_find? {c : Char} {cs : List Char} {t : Token}
    (h : Token.symbols.find? (·.spelling.toList.isPrefixOf (c :: cs)) = some t) :
    c :: cs = t.spelling.toList ++ cs.drop (t.spelling.length - 1) := by
  have hne := Token.spelling_ne_nil_of_symbols t (List.mem_of_find?_eq_some h)
  have hfound := List.find?_some h
  obtain ⟨rest, hrest⟩ := List.isPrefixOf_iff_prefix.mp hfound
  rw [← String.length_toList]
  cases hs : t.spelling.toList with
  | nil => exact absurd hs hne
  | cons s spelling =>
    rw [hs, List.cons_append, List.cons.injEq] at hrest
    obtain ⟨rfl, rfl⟩ := hrest
    simp

/-- What stands before such a character is the same lexeme without it. A comment has to end before
it on its own. -/
theorem next_append_cons (hd : EndsLexemes d) {c : Char} (hc : c = '#' → d = '\n')
    (cs ds : List Char) :
    next c (cs ++ d :: ds) = ((next c cs).1, (next c cs).2 ++ d :: ds) := by
  rcases next_cases c with ⟨-, h⟩ | ⟨hcomment, h⟩ | ⟨-, h⟩ | ⟨-, h⟩ | h
  · rw [h, h, dropWhile_append_of_stop hd.blanks]
  · rw [h, h, dropWhile_append_of_stop (by simp [hc hcomment])]
  · rw [h, h, takeWhile_append_of_stop hd.digits, dropWhile_append_of_stop hd.digits]
  · rw [h, h, takeWhile_append_of_stop hd.word, dropWhile_append_of_stop hd.word]
  · have hsame := find?_symbols_append_cons hd c cs ds
    rcases h cs with ⟨t, ht, hnext⟩ | ⟨ht, hnext⟩
    · rw [ht] at hsame
      rcases h (cs ++ d :: ds) with ⟨t', ht', hnext'⟩ | ⟨hnone, -⟩
      · obtain rfl : t = t' := Option.some.inj (hsame.symm.trans ht')
        have hlength := congrArg List.length (eq_spelling_append_of_find? ht)
        simp only [List.length_cons, List.length_append, String.length_toList,
          List.length_drop] at hlength
        have hle : t.spelling.length - 1 ≤ cs.length := by omega
        rw [hnext, hnext', List.drop_append_of_le_length hle]
      · cases hsame.symm.trans hnone
    · rw [ht] at hsame
      rcases h (cs ++ d :: ds) with ⟨t', ht', -⟩ | ⟨-, hnext'⟩
      · cases hsame.symm.trans ht'
      · rw [hnext, hnext']

theorem next_append_newline (c : Char) (cs ds : List Char) :
    next c (cs ++ '\n' :: ds) = ((next c cs).1, (next c cs).2 ++ '\n' :: ds) :=
  next_append_cons endsLexemes_newline (fun _ => rfl) cs ds

theorem ofInt_ne_newline (n : Int) : ofInt n ≠ .token .newline := by
  unfold ofInt
  cases Integer64.ofInt? n <;> simp

theorem ofDigits_ne_newline (digits : List Char) : ofDigits digits ≠ .token .newline :=
  ofInt_ne_newline _

theorem ofWord_ne_newline (word : List Char) : ofWord word ≠ .token .newline := by
  unfold ofWord
  cases h : Token.words.find? (·.spelling.toList == word) with
  | none => simp
  | some t =>
    simpa using Token.ne_newline_of_words t (List.mem_of_find?_eq_some h)

/-- A text loses its line breaks only one at a time, as tokens. -/
theorem count_newline_next (c : Char) (cs : List Char) :
    (c :: cs).count '\n' =
      (next c cs).2.count '\n' + if (next c cs).1 = .token .newline then 1 else 0 := by
  have hrun {p : Char → Bool} (hp : p '\n' = false) (hc : c ≠ '\n') :
      (c :: cs).count '\n' = (cs.dropWhile p).count '\n' := by
    rw [List.count_cons_of_ne hc, count_newline_dropWhile hp]
  rcases next_cases c with ⟨hc, h⟩ | ⟨hc, h⟩ | ⟨hc, h⟩ | ⟨hc, h⟩ | h
  · simp only [h, reduceCtorEq, if_false]
    exact hrun rfl (by rintro rfl; exact absurd hc (by decide))
  · simp only [h, reduceCtorEq, if_false]
    exact hrun rfl (by rintro rfl; exact absurd hc (by decide))
  · simp only [h, ofDigits_ne_newline, if_false]
    exact hrun rfl (by rintro rfl; exact absurd hc (by decide))
  · simp only [h, ofWord_ne_newline, if_false]
    exact hrun rfl (by rintro rfl; exact absurd hc (by decide))
  · rcases h cs with ⟨t, ht, hnext⟩ | ⟨ht, hnext⟩
    · have hcount := Token.count_newline_of_symbols t (List.mem_of_find?_eq_some ht)
      simp only [hnext, token.injEq]
      rw [← hcount, eq_spelling_append_of_find? ht, List.count_append, Nat.add_comm]
    · have hc : c ≠ '\n' := by
        rintro rfl
        have hnewline := List.find?_eq_none.mp ht .newline (by decide)
        exact hnewline rfl
      simp [hnext, hc]

theorem next_newline (cs : List Char) : next '\n' cs = (.token .newline, cs) := by
  rfl

end Lexeme

/-! ### All lexemes -/

namespace Token

open Lexeme

section

variable {line : Nat} {c : Char} {cs : List Char}

theorem scanFrom_of_skipped (h : (next c cs).1 = .skipped) :
    scanFrom line (c :: cs) = scanFrom line (next c cs).2 := by
  rw [scanFrom, h]

theorem scanFrom_of_newline (h : (next c cs).1 = .token .newline) :
    scanFrom line (c :: cs) =
      (⟨.newline, line + 1⟩ :: ·) <$> scanFrom (line + 1) (next c cs).2 := by
  rw [scanFrom, h]

theorem scanFrom_of_token {t : Token} (h : (next c cs).1 = .token t) (ht : t ≠ .newline) :
    scanFrom line (c :: cs) = (⟨t, line⟩ :: ·) <$> scanFrom line (next c cs).2 := by
  rw [scanFrom, h]
  cases t <;> first | rfl | exact absurd rfl ht

theorem scanFrom_of_oversized (h : (next c cs).1 = .oversized) :
    scanFrom line (c :: cs) = .error ⟨.literalTooLarge, line⟩ := by
  rw [scanFrom, h]

theorem scanFrom_of_unknown {d : Char} (h : (next c cs).1 = .unknown d) :
    scanFrom line (c :: cs) = .error ⟨.unknownCharacter d, line⟩ := by
  rw [scanFrom, h]

end

theorem cons_map_bind (u v : Located) (x y : Except ParseError (List Located)) :
    ((u :: ·) <$> do
        let us ← x
        let vs ← y
        return us ++ v :: vs) =
      do
        let us ← (u :: ·) <$> x
        let vs ← y
        return us ++ v :: vs := by
  cases x with
  | error e => rfl
  | ok us => cases y <;> rfl

/-- The text before a line break and the text after it are scanned each for itself. -/
theorem scanFrom_append_newline (line : Nat) (cs ds : List Char) :
    scanFrom line (cs ++ '\n' :: ds) = do
      let us ← scanFrom line cs
      let vs ← scanFrom (line + cs.count '\n' + 1) ds
      return us ++ ⟨.newline, line + cs.count '\n' + 1⟩ :: vs := by
  fun_induction scanFrom line cs with
  | case1 line =>
    rw [List.nil_append, scanFrom_of_newline (by rw [next_newline]), next_newline]
    simp only [List.count_nil, Nat.add_zero]
    cases scanFrom (line + 1) ds <;> rfl
  | case2 line c cs _ rest h ih =>
    have hcount : (c :: cs).count '\n' = rest.count '\n' := by
      rw [count_newline_next, h, if_neg (by simp), Nat.add_zero]
    rw [List.cons_append, scanFrom_of_skipped (by rw [next_append_newline, h]), next_append_newline,
      hcount]
    exact ih
  | case3 line c cs _ rest h ih =>
    have hcount : line + (c :: cs).count '\n' = line + 1 + rest.count '\n' := by
      rw [count_newline_next, h, if_pos rfl, ← Nat.add_assoc, Nat.add_right_comm]
    rw [List.cons_append, scanFrom_of_newline (by rw [next_append_newline, h]), next_append_newline,
      hcount, ← cons_map_bind, ← ih]
  | case4 line c cs _ rest t ht h ih =>
    have hcount : (c :: cs).count '\n' = rest.count '\n' := by
      rw [count_newline_next, h, if_neg (by simpa using ht), Nat.add_zero]
    rw [List.cons_append, scanFrom_of_token (by rw [next_append_newline, h]) ht,
      next_append_newline, hcount, ← cons_map_bind, ← ih]
  | case5 line c cs _ h =>
    rw [List.cons_append, scanFrom_of_oversized (by rw [next_append_newline, h])]
    rfl
  | case6 line c cs _ d h =>
    rw [List.cons_append, scanFrom_of_unknown (by rw [next_append_newline, h])]
    rfl

end Token

end BoundedScript
