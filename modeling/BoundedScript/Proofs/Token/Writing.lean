import BoundedScript.Proofs.WellFormed

/-!
# Writing tokens out

A token that the scanner can produce has a spelling that it reads as this token. With a blank after
it no spelling runs into the next one, so a text of such spellings is scanned back to its tokens,
and the line of each is known from the line breaks among them.
-/

namespace BoundedScript

namespace Token

/-- The spelling of the token is read as this token. -/
def ReadsBack (t : Token) : Prop := Lexeme.Denotes t.spelling.toList (some t)

/-- The token can be written on the line that it stands on and is read back from there. -/
def Writable (t : Token) : Prop := t.ReadsBack ∧ t ≠ newline

/-- The text of the tokens, with a blank after each. -/
def written (ts : List Token) : List Char := ts.flatMap fun t => t.spelling.toList ++ [' ']

end Token

namespace Lexeme

theorem matches_of_denotes {lexeme : List Char} {meaning : Option Token}
    (h : Denotes lexeme meaning) : Matches lexeme := by
  cases h with
  | blanks h => exact .inl h
  | comment h => exact .inr (.inl h)
  | integer h _ => exact .inr (.inr (.inl h))
  | fixed h => exact matches_of_isFixed h
  | name h _ => exact .inr (.inr (.inr (.inl h)))

theorem space_notMem_of_isFixed {t : Token} (h : t.isFixed = true) : ' ' ∉ t.spelling.toList := by
  have hwords : ∀ t ∈ Token.words, ' ' ∉ t.spelling.toList := by decide
  have hsymbols : ∀ t ∈ Token.symbols, ' ' ∉ t.spelling.toList := by decide
  rcases isFixed_iff.mp h with ht | ht
  · exact hwords t ht
  · exact hsymbols t ht

section

variable {c : Char} {cs lexeme rest : List Char} {t : Token}

/-- No token looks like the start of blanks or of a comment. -/
theorem first_of_denotes (h : Denotes (c :: cs) (some t)) : ¬ isBlank c = true ∧ c ≠ '#' := by
  have hname (hs : IsName (c :: cs)) : ¬ isBlank c = true ∧ c ≠ '#' := by
    have hc := isNameStart_iff.mp (isName_cons_iff.mp hs).1
    exact not_blank_of_isNameChar (isNameChar_iff.mpr (hc.imp_right .inr))
  generalize hlexeme : c :: cs = lexeme at h
  cases h with
  | integer hs _ =>
    subst hlexeme
    exact not_blank_of_isNameChar (isNameChar_iff.mpr (.inr (.inl (hs.2 c (by simp)))))
  | fixed ht =>
    rcases isFixed_iff.mp ht with hword | hsymbol
    · exact hname (hlexeme ▸ isName_of_words _ hword)
    · obtain ⟨hblank, hhash, -⟩ := first_of_symbols _ hsymbol c (by simp [← hlexeme])
      exact ⟨hblank, hhash⟩
  | name hs _ => exact hname (hlexeme ▸ hs)

/-- Only blanks and comments have a blank in them. -/
theorem not_matches_of_space (hblank : ¬ isBlank c = true) (hhash : c ≠ '#') (hspace : ' ' ∈ cs) :
    ¬ Matches (c :: cs) := by
  rintro (hs | ⟨_, heq, -⟩ | hs | hs | ⟨t, ht, hs⟩)
  · exact hblank (isBlank_iff.mpr (hs.2 c (by simp)))
  · exact hhash (List.cons.inj heq).1
  · exact absurd (isDigit_iff.mpr (hs.2 ' ' (by simp [hspace]))) (by decide)
  · exact absurd ((isName_cons_iff.mp hs).2 ' ' hspace) (by decide)
  · exact space_notMem_of_isFixed ht (by simp [hs, hspace])

theorem longest_before_space (h : Denotes lexeme (some t)) : Longest lexeme (' ' :: rest) := by
  have hmatch := matches_of_denotes h
  refine ⟨hmatch, ?_⟩
  obtain ⟨c, cs, rfl⟩ := List.exists_cons_of_ne_nil (ne_nil_of_matches hmatch)
  obtain ⟨hblank, hhash⟩ := first_of_denotes h
  intro more hne hpre
  obtain ⟨d, more, rfl⟩ := List.exists_cons_of_ne_nil hne
  obtain ⟨rfl, -⟩ := List.cons_prefix_cons.mp hpre
  exact not_matches_of_space hblank hhash (by simp)

theorem longest_space (hrest : ∀ c ∈ rest.head?, ¬ isBlank c = true) : Longest [' '] rest := by
  refine ⟨.inl ⟨by simp, by simp⟩, ?_⟩
  intro more hne hpre
  obtain ⟨d, more, rfl⟩ := List.exists_cons_of_ne_nil hne
  have hd : ¬ isBlank d = true := hrest d (by
    obtain ⟨tail, rfl⟩ := hpre
    rfl)
  rintro (hs | ⟨_, heq, -⟩ | hs | hs | ⟨t, ht, hs⟩)
  · exact hd (isBlank_iff.mpr (hs.2 d (by simp)))
  · cases heq
  · exact absurd (isDigit_iff.mpr (hs.2 ' ' (by simp))) (by decide)
  · exact absurd (isName_cons_iff.mp hs).1 (by decide)
  · exact space_notMem_of_isFixed ht (by simp [hs])

end

end Lexeme

namespace Token

/-- The tokens with their lines, the first of which is `first`. The line of a token counts the line
breaks up to and including it. -/
def onLines (first : Nat) (ts : List Token) : List Located :=
  ts.mapIdx fun i t => ⟨t, first + (ts.take (i + 1)).count newline⟩

theorem onLines_cons (first : Nat) (t : Token) (ts : List Token) :
    onLines first (t :: ts) = ⟨t, first + if t = newline then 1 else 0⟩ ::
      onLines (first + if t = newline then 1 else 0) ts := by
  simp only [onLines, List.mapIdx_cons, List.take_succ_cons, List.count_cons, beq_iff_eq]
  congr 1
  · simp
  · apply congrArg (List.mapIdx · ts)
    funext i u
    rw [Nat.add_comm (List.count _ _), Nat.add_assoc]

theorem onLines_of_newline_notMem {ts : List Token} (h : newline ∉ ts) (first : Nat) :
    onLines first ts = ts.map (⟨·, first⟩) := by
  induction ts with
  | nil => rfl
  | cons t ts ih =>
    rw [List.mem_cons, not_or] at h
    rw [onLines_cons, if_neg (Ne.symm h.1), Nat.add_zero, ih h.2, List.map_cons]

end Token

open Lexeme

section

variable {t : Token} {before rest stop : List Char} {us : List Located}

theorem Token.ReadsBack.first_of_spelling (h : t.ReadsBack) (rest : List Char) :
    ∀ c ∈ (t.spelling.toList ++ rest).head?, ¬ isBlank c = true := by
  intro c hc
  have hd : Denotes t.spelling.toList (some t) := h
  obtain ⟨d, ds, hs⟩ := List.exists_cons_of_ne_nil (ne_nil_of_matches (matches_of_denotes hd))
  obtain rfl : d = c := by simpa [hs] using hc
  rw [hs] at hd
  exact (first_of_denotes hd).1

theorem Segmented.spelling {after : List Char} (h : t.ReadsBack)
    (hlongest : Longest t.spelling.toList after)
    (hafter : Segmented (before ++ t.spelling.toList) after us stop) :
    Segmented before (t.spelling.toList ++ after)
      (⟨t, 1 + before.count '\n' + if t = .newline then 1 else 0⟩ :: us) stop := by
  have hcut := Segmented.token hlongest h hafter
  rw [List.count_append, Token.count_newline_of_longest hlongest h, ← Nat.add_assoc] at hcut
  simpa using hcut

/-- A spelling and the blank after it are cut off one by one. -/
theorem Segmented.spelling_space (h : t.ReadsBack) (hrest : ∀ c ∈ rest.head?, ¬ isBlank c = true)
    (hafter : Segmented (before ++ t.spelling.toList ++ [' ']) rest us stop) :
    Segmented before (t.spelling.toList ++ ' ' :: rest)
      (⟨t, 1 + before.count '\n' + if t = .newline then 1 else 0⟩ :: us) stop :=
  .spelling h (longest_before_space h)
    (.skip (longest_space hrest) (.blanks ⟨by simp, by simp⟩) hafter)

theorem Segmented.count_newline_spelling_space (h : t.ReadsBack) :
    (before ++ t.spelling.toList ++ [' ']).count '\n' =
      before.count '\n' + if t = .newline then 1 else 0 := by
  have hlongest : Longest t.spelling.toList [' '] := longest_before_space h
  have hcount := Token.count_newline_of_longest hlongest h
  rw [List.count_append, List.count_append, hcount]
  simp

end

namespace Token

/-! ### A blank after each token -/

theorem first_of_written {ts : List Token} (hts : ∀ t ∈ ts, t.ReadsBack) :
    ∀ c ∈ (written ts).head?, ¬ isBlank c = true := by
  cases ts with
  | nil => simp [written]
  | cons t ts =>
    simp only [written, List.flatMap_cons, List.append_assoc]
    exact (hts t List.mem_cons_self).first_of_spelling _

theorem segmented_written {ts : List Token} (hts : ∀ t ∈ ts, t.ReadsBack) (before : List Char) :
    Segmented before (written ts) (onLines (1 + before.count '\n') ts) [] := by
  induction ts generalizing before with
  | nil => exact .done
  | cons t ts ih =>
    rw [List.forall_mem_cons] at hts
    have hrest := ih hts.2 (before ++ t.spelling.toList ++ [' '])
    rw [Segmented.count_newline_spelling_space hts.1, ← Nat.add_assoc] at hrest
    have hcut := hrest.spelling_space hts.1 (first_of_written hts.2)
    rw [onLines_cons]
    simpa [written] using hcut

theorem scan_written {ts : List Token} (hts : ∀ t ∈ ts, t.Writable) :
    scan (.ofList (written ts)) = .ok (ts.map (⟨·, 1⟩)) := by
  have hnone : newline ∉ ts := fun hmem => (hts newline hmem).2 rfl
  rw [← onLines_of_newline_notMem hnone]
  apply scan_of_segmented
  rw [String.toList_ofList]
  exact segmented_written (fun t ht => (hts t ht).1) []

theorem writable_of_isFixed {t : Token} (h : (t.isFixed && t != newline) = true) :
    t.Writable := by
  obtain ⟨hfixed, hne⟩ := Bool.and_eq_true_iff.mp h
  exact ⟨.fixed hfixed, bne_iff_ne.mp hne⟩

theorem writable_identifier {name : String} (h : IsVariableName name) :
    (identifier name).Writable := by
  have hfixed : ¬ IsFixed name.toList := by
    rintro ⟨t, ht, hs⟩
    rcases isFixed_iff.mp ht with hword | hsymbol
    · exact h.2 (List.mem_map.mpr ⟨t, hword, String.toList_inj.mp hs⟩)
    · obtain ⟨c, cs, heq⟩ := List.exists_cons_of_ne_nil (spelling_ne_nil_of_symbols t hsymbol)
      obtain ⟨-, -, -, hstart⟩ := first_of_symbols t hsymbol c (by simp [heq])
      have hname := h.1
      rw [← hs, heq] at hname
      exact hstart (isName_cons_iff.mp hname).1
  have hd := Denotes.name h.1 hfixed
  rw [String.ofList_toList] at hd
  exact ⟨hd, by simp⟩

theorem writable_integer {n : Integer64} (h : 0 ≤ n.toInt) : (integer n).Writable := by
  obtain ⟨k, hk⟩ := Int.eq_ofNat_of_zero_le h
  have hs : (integer n).spelling.toList = Nat.toDigits 10 k := by
    simp only [spelling, hk]
    exact Nat.toList_repr
  have hnumeral : IsNumeral (Nat.toDigits 10 k) := by
    refine ⟨Nat.toDigits_ne_nil, fun c hc => ?_⟩
    exact isDigit_iff.mp (Nat.isDigit_of_mem_toDigits (by decide) (by decide) hc)
  refine ⟨?_, by simp⟩
  unfold ReadsBack
  rw [hs]
  exact .integer hnumeral (by rw [number, Nat.ofDigitChars_ten_toDigits, hk])

/-! ### A blank between any two tokens -/

/-- Numbers are not negative, names can name a variable, and there are no comments. -/
def Proper : Token → Prop
  | integer n => 0 ≤ n.toInt
  | identifier name => IsVariableName name
  | comment => False
  | _ => True

instance : DecidablePred Proper
  | integer _ => inferInstanceAs (Decidable (_ ≤ _))
  | identifier _ => inferInstanceAs (Decidable (IsVariableName _))
  | comment => inferInstanceAs (Decidable False)
  | boolean _ | logical _ | negation | keyword _ | comparison _ | arithmetic _ | update _ | assign
  | openParen | closeParen | openBrace | closeBrace | semicolon | newline =>
    inferInstanceAs (Decidable True)

theorem proper_of_denotes {lexeme : List Char} {t : Token} (h : Denotes lexeme (some t)) :
    t.Proper := by
  cases t with
  | integer n => exact nonneg_of_denotes h
  | identifier name => exact isVariableName_of_denotes h
  | comment => exact absurd rfl (ne_comment_of_denotes h)
  | _ => trivial

theorem Proper.readsBack {t : Token} (h : t.Proper) : t.ReadsBack := by
  cases t with
  | integer n => exact (writable_integer h).1
  | identifier name => exact (writable_identifier h).1
  | comment => cases h
  | _ => exact .fixed rfl

/-- The text of the tokens, with a blank between any two. -/
def spaced (ts : List Token) : String := " ".intercalate (ts.map spelling)

theorem toList_spaced_cons_cons (t t' : Token) (ts : List Token) :
    (spaced (t :: t' :: ts)).toList =
      t.spelling.toList ++ ' ' :: (spaced (t' :: ts)).toList := by
  simp [spaced, String.toList_intercalate]

theorem first_of_spaced {t : Token} (ht : t.ReadsBack) (ts : List Token) :
    ∀ c ∈ (spaced (t :: ts)).toList.head?, ¬ isBlank c = true := by
  cases ts with
  | nil => simpa [spaced] using ht.first_of_spelling []
  | cons t' ts =>
    rw [toList_spaced_cons_cons]
    exact ht.first_of_spelling _

theorem segmented_spaced {ts : List Token} (hts : ∀ t ∈ ts, t.ReadsBack) (before : List Char) :
    Segmented before (spaced ts).toList (onLines (1 + before.count '\n') ts) [] := by
  induction ts generalizing before with
  | nil => exact .done
  | cons t ts ih =>
    rw [List.forall_mem_cons] at hts
    cases ts with
    | nil =>
      have hlongest : Longest t.spelling.toList [] :=
        ⟨matches_of_denotes hts.1, fun more hne hpre => absurd (List.prefix_nil.mp hpre) hne⟩
      have hcut : Segmented before _ _ [] := .spelling hts.1 hlongest .done
      rw [onLines_cons]
      simpa [spaced, onLines] using hcut
    | cons t' ts =>
      have hrest := ih hts.2 (before ++ t.spelling.toList ++ [' '])
      rw [Segmented.count_newline_spelling_space hts.1, ← Nat.add_assoc] at hrest
      rw [toList_spaced_cons_cons, onLines_cons]
      exact hrest.spelling_space hts.1 (first_of_spaced (hts.2 t' List.mem_cons_self) ts)

theorem scan_spaced {ts : List Token} (hts : ∀ t ∈ ts, t.Proper) :
    scan (spaced ts) = .ok (onLines 1 ts) :=
  scan_of_segmented (segmented_spaced (fun t ht => (hts t ht).readsBack) [])

/-- The lines of a source are those that its line breaks give it. -/
theorem eq_onLines_of_segmented {before text rest : List Char} {us : List Located}
    (h : Segmented before text us rest) :
    us = onLines (1 + before.count '\n') (us.map Located.token) := by
  induction h with
  | done => rfl
  | skip hlongest hd _ ih =>
    rwa [List.count_append, count_newline_of_longest hlongest hd, if_neg (by simp),
      Nat.add_zero] at ih
  | @token before lexeme after t us rest hlongest hd _ ih =>
    rw [List.count_append, count_newline_of_longest hlongest hd] at ih ⊢
    rw [List.map_cons, onLines_cons]
    simp only [Option.some.injEq, ← Nat.add_assoc] at ih ⊢
    rw [← ih]

end Token

/-- Proper tokens, written with a blank between any two, are scanned back with the lines that the
line breaks among them give. The tokens of every source are proper and have these lines, so writing
them this way and scanning the text again changes nothing. -/
theorem spaced_tokens_are_scanned_back :
    (∀ ts : List Token, (∀ t ∈ ts, t.Proper) →
      Token.scan (" ".intercalate (ts.map Token.spelling)) =
        .ok (ts.mapIdx fun i t => ⟨t, 1 + (ts.take (i + 1)).count .newline⟩)) ∧
    ∀ source us, Token.scan source = .ok us →
      (∀ t ∈ us.map Located.token, t.Proper) ∧
      Token.scan (" ".intercalate ((us.map Located.token).map Token.spelling)) = .ok us := by
  constructor
  · intro ts hts
    exact Token.scan_spaced hts
  · intro source us hscan
    have hseg := Token.segmented_of_scan hscan
    have hproper : ∀ t ∈ us.map Located.token, t.Proper := by
      intro t ht
      obtain ⟨u, hu, rfl⟩ := List.mem_map.mp ht
      obtain ⟨lexeme, hd⟩ := Token.denotes_of_segmented hseg u hu
      exact Token.proper_of_denotes hd
    refine ⟨hproper, ?_⟩
    have hlines := Token.eq_onLines_of_segmented hseg
    rw [List.count_nil, Nat.add_zero] at hlines
    calc Token.scan (Token.spaced (us.map Located.token))
        = .ok (Token.onLines 1 (us.map Located.token)) := Token.scan_spaced hproper
      _ = .ok us := by rw [← hlines]

/-- Names that start with a word of the language, the largest number, symbols that would join
without a blank, and line breaks. -/
theorem joining_tokens_are_scanned_back :
    let largest : Integer64 := ⟨0x7fffffffffffffff, by decide, by decide⟩
    let ts : List Token := [.identifier "iffy", .keyword .inWord, .newline, .integer largest,
      .integer largest, .assign, .comparison .eq, .newline, .arithmetic .div, .arithmetic .div]
    let us : List Located := [⟨.identifier "iffy", 1⟩, ⟨.keyword .inWord, 1⟩, ⟨.newline, 2⟩,
      ⟨.integer largest, 2⟩, ⟨.integer largest, 2⟩, ⟨.assign, 2⟩, ⟨.comparison .eq, 2⟩,
      ⟨.newline, 3⟩, ⟨.arithmetic .div, 3⟩, ⟨.arithmetic .div, 3⟩]
    (∀ t ∈ ts, t.Proper) ∧ Token.scan (" ".intercalate (ts.map Token.spelling)) = .ok us ∧
      Token.scan (" ".intercalate ((us.map Located.token).map Token.spelling)) = .ok us := by
  intro largest ts us
  have hproper : ∀ t ∈ ts, t.Proper := by decide
  have hlines : (ts.mapIdx fun i t => ⟨t, 1 + (ts.take (i + 1)).count .newline⟩) = us := by
    decide +kernel
  have hscan : Token.scan (" ".intercalate (ts.map Token.spelling)) = .ok us := by
    rw [← hlines]
    exact spaced_tokens_are_scanned_back.1 ts hproper
  exact ⟨hproper, hscan, (spaced_tokens_are_scanned_back.2 _ us hscan).2⟩

end BoundedScript
