import BoundedScript.Proofs.Token.Scanning
import Mathlib.Data.List.Nodup

/-!
# The longest match

What the scanner should do is said here without it. A lexeme is a text of one of five shapes. To cut
a source is to take off its front, again and again, a lexeme that no longer one at the same place
extends. A source that cannot be cut to its end is stuck at a numeral beyond the 64-bit range or at
a character with which no lexeme starts.

Every source can be cut up to its end or up to a place where it is stuck, and the scanner takes
these very cuts. Together this makes the tokens and the errors of a source those of its cut.
-/

namespace BoundedScript

/-- Tokens with one spelling each. -/
def Token.isFixed : Token → Bool
  | .integer _ | .identifier _ | .comment => false
  | _ => true

namespace Lexeme

/-! ### Shapes of lexemes -/

def IsLetter (c : Char) : Prop := ('a' ≤ c ∧ c ≤ 'z') ∨ ('A' ≤ c ∧ c ≤ 'Z')

def IsDigit (c : Char) : Prop := '0' ≤ c ∧ c ≤ '9'

/-- Spaces, tabs, carriage returns and form feeds. -/
def IsBlanks (cs : List Char) : Prop :=
  cs ≠ [] ∧ ∀ c ∈ cs, c = ' ' ∨ c = '\t' ∨ c = '\r' ∨ c = '\x0c'

def IsComment (cs : List Char) : Prop := ∃ text, cs = '#' :: text ∧ '\n' ∉ text

def IsNumeral (cs : List Char) : Prop := cs ≠ [] ∧ ∀ c ∈ cs, IsDigit c

def IsName (cs : List Char) : Prop :=
  ∃ c rest, cs = c :: rest ∧ (IsLetter c ∨ c = '_') ∧ ∀ d ∈ rest, IsLetter d ∨ IsDigit d ∨ d = '_'

/-- The spelling of a token that has only one. -/
def IsFixed (cs : List Char) : Prop := ∃ t : Token, t.isFixed = true ∧ t.spelling.toList = cs

def Matches (cs : List Char) : Prop :=
  IsBlanks cs ∨ IsComment cs ∨ IsNumeral cs ∨ IsName cs ∨ IsFixed cs

/-- `lexeme` stands in front of `after`, and no longer lexeme starts where it does. -/
def Longest (lexeme after : List Char) : Prop :=
  Matches lexeme ∧ ∀ more, more ≠ [] → more <+: after → ¬ Matches (lexeme ++ more)

/-- The number that a numeral denotes. -/
def number (digits : List Char) : Nat := Nat.ofDigitChars 10 digits 0

/-- The token that a lexeme is, if it is one. Blanks and comments are none. Words of the language
are names as well, but the fixed spelling comes first. -/
inductive Denotes : List Char → Option Token → Prop
  | blanks {cs} : IsBlanks cs → Denotes cs none
  | comment {cs} : IsComment cs → Denotes cs none
  | integer {cs} {n : Integer64} :
      IsNumeral cs → n.toInt = number cs → Denotes cs (some (.integer n))
  | fixed {t : Token} : t.isFixed = true → Denotes t.spelling.toList (some t)
  | name {cs} : IsName cs → ¬ IsFixed cs → Denotes cs (some (.identifier (.ofList cs)))

end Lexeme

open Lexeme

/-! ### Cutting a source -/

/-- `Segmented before text ts rest` says that `text`, which stands after `before`, is cut into
lexemes as far as `rest`, and that `ts` are the tokens among them. The line of a token counts the
line breaks up to its end. -/
inductive Segmented : (before text : List Char) → List Located → (rest : List Char) → Prop
  | done {before rest} : Segmented before rest [] rest
  | skip {before lexeme after ts rest} :
      Longest lexeme after → Denotes lexeme none → Segmented (before ++ lexeme) after ts rest →
      Segmented before (lexeme ++ after) ts rest
  | token {before lexeme after t ts rest} :
      Longest lexeme after → Denotes lexeme (some t) →
      Segmented (before ++ lexeme) after ts rest →
      Segmented before (lexeme ++ after) (⟨t, 1 + (before ++ lexeme).count '\n'⟩ :: ts) rest

/-- No further cut of the text is possible, for the given cause. -/
inductive Stuck : List Char → ParseError.Cause → Prop
  | oversized {digits after} :
      IsNumeral digits → Longest digits after → 0x8000000000000000 ≤ number digits →
      Stuck (digits ++ after) .literalTooLarge
  | unknown {c after} :
      (∀ lexeme, lexeme <+: c :: after → ¬ Matches lexeme) →
      Stuck (c :: after) (.unknownCharacter c)

/-! ### Characters -/

namespace Lexeme

theorem isBlank_iff {c : Char} :
    isBlank c = true ↔ c = ' ' ∨ c = '\t' ∨ c = '\r' ∨ c = '\x0c' := by
  simp [isBlank, or_assoc]

theorem isDigit_iff {c : Char} : c.isDigit = true ↔ IsDigit c := by
  simp [Char.isDigit, IsDigit, Char.le_def]

theorem isAlpha_iff {c : Char} : c.isAlpha = true ↔ IsLetter c := by
  change (decide (c.val ≥ 'A'.val ∧ c.val ≤ 'Z'.val) ||
    decide (c.val ≥ 'a'.val) && decide (c.val ≤ 'z'.val)) = true ↔ IsLetter c
  simp [IsLetter, Char.le_def, or_comm]

theorem isNameStart_iff {c : Char} : isNameStart c = true ↔ IsLetter c ∨ c = '_' := by
  simp [isNameStart, isAlpha_iff]

theorem isNameChar_iff {c : Char} : isNameChar c = true ↔ IsLetter c ∨ IsDigit c ∨ c = '_' := by
  simp [isNameChar, Char.isAlphanum, isAlpha_iff, isDigit_iff, or_assoc]

theorem not_blank_of_isNameChar {c : Char} (h : isNameChar c = true) :
    ¬ isBlank c = true ∧ c ≠ '#' := by
  constructor
  · intro hb
    rcases isBlank_iff.mp hb with rfl | rfl | rfl | rfl <;> exact absurd h (by decide)
  · rintro rfl
    exact absurd h (by decide)

theorem not_isDigit_of_isNameStart {c : Char} (h : isNameStart c = true) :
    ¬ c.isDigit = true := by
  rw [isDigit_iff]
  rintro ⟨hlow, hhigh⟩
  rcases isNameStart_iff.mp h with (⟨hl, -⟩ | ⟨hl, -⟩) | rfl
  · exact absurd (Char.le_trans hl hhigh) (by decide)
  · exact absurd (Char.le_trans hl hhigh) (by decide)
  · exact absurd hhigh (by decide)

/-! ### One cut -/

section

variable {c : Char} {cs ds lexeme after : List Char} {p : Char → Bool}

/-- A run of characters of one kind, all of which make a lexeme with what stands before them, ends
where the longest lexeme ends. -/
theorem run_of_longest (h : Longest (c :: ds) after) (hds : ∀ d ∈ ds, p d = true)
    (hp : ∀ run : List Char, (∀ d ∈ run, p d = true) → Matches (c :: run)) :
    (ds ++ after).takeWhile p = ds ∧ (ds ++ after).dropWhile p = after := by
  have hafter : after.takeWhile p = [] ∧ after.dropWhile p = after := by
    cases after with
    | nil => exact ⟨rfl, rfl⟩
    | cons d after =>
      have hd : ¬ p d = true := by
        intro hd
        refine h.2 [d] (by simp) (by simp) (hp (ds ++ [d]) ?_)
        intro x hx
        rcases List.mem_append.mp hx with hx | hx
        · exact hds x hx
        · exact List.mem_singleton.mp hx ▸ hd
      exact ⟨List.takeWhile_cons_of_neg hd, List.dropWhile_cons_of_neg hd⟩
  rw [List.takeWhile_append_of_pos hds, List.dropWhile_append_of_pos hds, hafter.1, hafter.2,
    List.append_nil]
  exact ⟨rfl, rfl⟩

theorem next_of_blanks (hs : IsBlanks (c :: ds)) (h : Longest (c :: ds) after) :
    next c (ds ++ after) = (.skipped, after) := by
  have hc := isBlank_iff.mpr (hs.2 c (by simp))
  have hrun := run_of_longest h (fun d hd => isBlank_iff.mpr (hs.2 d (by simp [hd])))
    fun run hr => .inl ⟨by simp, List.forall_mem_cons.mpr
      ⟨hs.2 c (by simp), fun d hd => isBlank_iff.mp (hr d hd)⟩⟩
  unfold next
  rw [if_pos hc, hrun.2]

theorem next_of_comment (hs : '\n' ∉ ds) (h : Longest ('#' :: ds) after) :
    next '#' (ds ++ after) = (.skipped, after) := by
  have hrun := run_of_longest (p := (· != '\n')) h
    (fun d hd => bne_iff_ne.mpr (ne_of_mem_of_not_mem hd hs)) fun run hr =>
      .inr (.inl ⟨run, rfl, fun hmem => bne_iff_ne.mp (hr _ hmem) rfl⟩)
  unfold next
  rw [if_neg (by decide), if_pos rfl, hrun.2]

theorem next_of_numeral (hs : IsNumeral (c :: ds)) (h : Longest (c :: ds) after) :
    next c (ds ++ after) = (ofDigits (c :: ds), after) := by
  have hc := isDigit_iff.mpr (hs.2 c (by simp))
  have hrun := run_of_longest h (fun d hd => isDigit_iff.mpr (hs.2 d (by simp [hd]))) fun run hr =>
    .inr (.inr (.inl ⟨by simp, List.forall_mem_cons.mpr
      ⟨hs.2 c (by simp), fun d hd => isDigit_iff.mp (hr d hd)⟩⟩))
  obtain ⟨hblank, hhash⟩ := not_blank_of_isNameChar
    (isNameChar_iff.mpr (.inr (.inl (isDigit_iff.mp hc))))
  unfold next
  rw [if_neg hblank, if_neg hhash, if_pos hc, hrun.1, hrun.2]

theorem next_of_name (hs : IsName (c :: ds)) (h : Longest (c :: ds) after) :
    next c (ds ++ after) = (ofWord (c :: ds), after) := by
  obtain ⟨_, _, heq, hstart, hrest⟩ := hs
  cases heq
  have hc := isNameStart_iff.mpr hstart
  have hrun := run_of_longest h (fun d hd => isNameChar_iff.mpr (hrest d hd)) fun run hr =>
    .inr (.inr (.inr (.inl ⟨c, run, rfl, hstart, fun d hd => isNameChar_iff.mp (hr d hd)⟩)))
  obtain ⟨hblank, hhash⟩ := not_blank_of_isNameChar
    (isNameChar_iff.mpr (hstart.imp_right .inr))
  unfold next
  rw [if_neg hblank, if_neg hhash, if_neg (not_isDigit_of_isNameStart hc), if_pos hc, hrun.1,
    hrun.2]

end

/-! ### Words and symbols -/

theorem isName_cons_iff {c : Char} {cs : List Char} :
    IsName (c :: cs) ↔ isNameStart c = true ∧ ∀ d ∈ cs, isNameChar d = true := by
  simp only [isNameStart_iff, isNameChar_iff]
  constructor
  · rintro ⟨_, _, heq, hc, hcs⟩
    cases heq
    exact ⟨hc, hcs⟩
  · rintro ⟨hc, hcs⟩
    exact ⟨c, cs, rfl, hc, hcs⟩

instance : DecidablePred IsName
  | [] => isFalse fun ⟨_, _, heq, _⟩ => by cases heq
  | c :: cs => decidable_of_iff (isNameStart c = true ∧ cs.all isNameChar = true)
      (by rw [isName_cons_iff, List.all_eq_true])

theorem isFixed_iff {t : Token} : t.isFixed = true ↔ t ∈ Token.words ∨ t ∈ Token.symbols := by
  cases t with
  | integer | identifier | comment => simp [Token.isFixed, Token.words, Token.symbols]
  | boolean b => cases b <;> decide
  | logical op | keyword op | comparison op | arithmetic op | update op => cases op <;> decide
  | negation | assign | openParen | closeParen | openBrace | closeBrace | semicolon | newline =>
    decide

theorem isName_of_words : ∀ t ∈ Token.words, IsName t.spelling.toList := by decide

theorem find?_words : ∀ t ∈ Token.words,
    Token.words.find? (·.spelling.toList == t.spelling.toList) = some t := by decide

/-- The table of symbols lists longer spellings first. -/
theorem symbols_pairwise_length : Token.symbols.Pairwise fun t t' =>
    t'.spelling.toList.length ≤ t.spelling.toList.length := by decide

theorem symbols_nodup_spelling : (Token.symbols.map (·.spelling.toList)).Nodup := by decide

/-- No symbol starts like a lexeme of another kind. -/
theorem first_of_symbols : ∀ t ∈ Token.symbols, ∀ c ∈ t.spelling.toList.head?,
    ¬ isBlank c = true ∧ c ≠ '#' ∧ ¬ c.isDigit = true ∧ ¬ isNameStart c = true := by
  have hfirst : ∀ t ∈ Token.symbols, (t.spelling.toList.head?.all fun c =>
      !isBlank c && c != '#' && !c.isDigit && !isNameStart c) = true := by decide
  intro t ht c hc
  have hall := hfirst t ht
  rw [Option.mem_def.mp hc] at hall
  simpa [and_assoc] using hall

section

variable {t : Token} {c : Char} {cs ds after : List Char}

theorem matches_of_isFixed (h : t.isFixed = true) : Matches t.spelling.toList :=
  .inr (.inr (.inr (.inr ⟨t, h, rfl⟩)))

/-- The first symbol in the table that fits is the longest one. -/
theorem find?_symbols_of_longest (ht : t ∈ Token.symbols) (h : Longest t.spelling.toList after) :
    Token.symbols.find? (·.spelling.toList.isPrefixOf (t.spelling.toList ++ after)) = some t := by
  have hfits : t.spelling.toList.isPrefixOf (t.spelling.toList ++ after) = true :=
    List.isPrefixOf_iff_prefix.mpr (List.prefix_append _ _)
  obtain ⟨t', hfound⟩ : ∃ t', Token.symbols.find?
      (·.spelling.toList.isPrefixOf (t.spelling.toList ++ after)) = some t' :=
    Option.isSome_iff_exists.mp (List.find?_isSome.mpr ⟨t, ht, hfits⟩)
  obtain ⟨hfits', front, back, htable, hfront⟩ := List.find?_eq_some_iff_append.mp hfound
  have hpre := List.isPrefixOf_iff_prefix.mp hfits'
  have ht' : t' ∈ Token.symbols := List.mem_of_find?_eq_some hfound
  have hlength : t.spelling.toList.length ≤ t'.spelling.toList.length := by
    have hpairs := symbols_pairwise_length
    rw [htable, List.pairwise_append, List.pairwise_cons] at hpairs
    rw [htable] at ht
    rcases List.mem_append.mp ht with hmem | hmem
    · simpa [hfits] using hfront t hmem
    · rcases List.mem_cons.mp hmem with rfl | hmem
      · exact Nat.le_refl _
      · exact hpairs.2.1.1 t hmem
  obtain ⟨more, hmore⟩ := List.prefix_of_prefix_length_le (List.prefix_append _ after) hpre hlength
  have hnil : more = [] := by
    by_contra hne
    rw [← hmore, List.prefix_append_right_inj] at hpre
    exact h.2 more hne hpre (hmore ▸ matches_of_isFixed (isFixed_iff.mpr (.inr ht')))
  rw [hnil, List.append_nil] at hmore
  rw [hfound, List.inj_on_of_nodup_map symbols_nodup_spelling ht ht' hmore]

theorem next_of_symbol (ht : t ∈ Token.symbols) (hs : t.spelling.toList = c :: ds)
    (h : Longest (c :: ds) after) : next c (ds ++ after) = (.token t, after) := by
  obtain ⟨hblank, hhash, hdigit, hname⟩ := first_of_symbols t ht c (by simp [hs])
  have hfound := find?_symbols_of_longest ht (hs ▸ h)
  rw [hs, List.cons_append] at hfound
  have hrest := eq_spelling_append_of_find? hfound
  rw [hs, ← List.cons_append, List.append_cancel_left_eq] at hrest
  unfold next
  rw [if_neg hblank, if_neg hhash, if_neg hdigit, if_neg hname, hfound]
  dsimp only
  rw [← hrest]

/-- What the scanner calls a lexeme. -/
def ofMeaning : Option Token → Lexeme
  | some t => .token t
  | none => .skipped

/-- The scanner takes off the longest lexeme and knows its meaning. -/
theorem next_of_denotes {meaning : Option Token} (hd : Denotes (c :: ds) meaning)
    (h : Longest (c :: ds) after) : next c (ds ++ after) = (ofMeaning meaning, after) := by
  generalize hlexeme : c :: ds = lexeme at hd
  cases hd with
  | blanks hs =>
    subst hlexeme
    exact next_of_blanks hs h
  | comment hs =>
    subst hlexeme
    obtain ⟨_, heq, hs⟩ := hs
    cases heq
    exact next_of_comment hs h
  | integer hs hn =>
    subst hlexeme
    rw [next_of_numeral hs h, ofDigits, ofInt, ← number, ← hn, Integer64.ofInt?_toInt]
    rfl
  | @fixed t ht =>
    rcases isFixed_iff.mp ht with hword | hsymbol
    · rw [next_of_name (hlexeme ▸ isName_of_words t hword) h, ofWord, hlexeme, find?_words t hword]
      rfl
    · exact next_of_symbol hsymbol hlexeme.symm h
  | name hs hfixed =>
    subst hlexeme
    have hnone : Token.words.find? (·.spelling.toList == c :: ds) = none := by
      rw [List.find?_eq_none]
      intro t ht hspelling
      exact hfixed ⟨t, isFixed_iff.mpr (.inl ht), eq_of_beq hspelling⟩
    rw [next_of_name hs h, ofWord, hnone]
    rfl

/-- Where no lexeme fits, the scanner stops. -/
theorem next_of_unmatched (h : ∀ lexeme, lexeme <+: c :: cs → ¬ Matches lexeme) :
    next c cs = (.unknown c, cs) := by
  have hc : ¬ Matches [c] := h [c] (by simp)
  have hblank : ¬ isBlank c = true := fun hb =>
    hc (.inl ⟨by simp, by simpa using isBlank_iff.mp hb⟩)
  have hhash : c ≠ '#' := by
    rintro rfl
    exact hc (.inr (.inl ⟨[], rfl, by simp⟩))
  have hdigit : ¬ c.isDigit = true := fun hd =>
    hc (.inr (.inr (.inl ⟨by simp, by simpa using isDigit_iff.mp hd⟩)))
  have hname : ¬ isNameStart c = true := fun hn =>
    hc (.inr (.inr (.inr (.inl (isName_cons_iff.mpr ⟨hn, by simp⟩)))))
  have hsymbol : Token.symbols.find? (·.spelling.toList.isPrefixOf (c :: cs)) = none := by
    rw [List.find?_eq_none]
    intro t ht hfits
    exact h _ (List.isPrefixOf_iff_prefix.mp hfits)
      (matches_of_isFixed (isFixed_iff.mpr (.inr ht)))
  unfold next
  rw [if_neg hblank, if_neg hhash, if_neg hdigit, if_neg hname, hsymbol]

end

/-! ### Every text can be cut or is stuck -/

section

variable {lexeme text : List Char}

theorem ne_nil_of_matches (h : Matches lexeme) : lexeme ≠ [] := by
  rcases h with h | ⟨_, rfl, _⟩ | h | ⟨_, _, rfl, _⟩ | ⟨t, ht, rfl⟩
  · exact h.1
  · simp
  · exact h.1
  · simp
  · rcases isFixed_iff.mp ht with ht | ht
    · obtain ⟨_, _, heq, -⟩ := isName_of_words t ht
      simp [heq]
    · exact Token.spelling_ne_nil_of_symbols t ht

/-- A lexeme that is not the longest at its place is extended by a longer one. -/
theorem exists_longest {lexeme : List Char} (h : Matches lexeme) (after : List Char) :
    ∃ lexeme' after', lexeme ++ after = lexeme' ++ after' ∧ Longest lexeme' after' := by
  by_cases hl : Longest lexeme after
  · exact ⟨lexeme, after, rfl, hl⟩
  · obtain ⟨more, hne, ⟨rest, rfl⟩, hmore⟩ :
        ∃ more, more ≠ [] ∧ more <+: after ∧ Matches (lexeme ++ more) := by
      by_contra hno
      exact hl ⟨h, fun more hne hpre hmore => hno ⟨more, hne, hpre, hmore⟩⟩
    have hlt : rest.length < (more ++ rest).length := by
      rw [List.length_append]
      have := List.length_pos_iff.mpr hne
      omega
    obtain ⟨lexeme', after', heq, hl'⟩ := exists_longest hmore rest
    exact ⟨lexeme', after', by rw [← heq, List.append_assoc], hl'⟩
termination_by after.length

theorem denotes_or_oversized (h : Matches lexeme) :
    (∃ meaning, Denotes lexeme meaning) ∨
      IsNumeral lexeme ∧ 0x8000000000000000 ≤ number lexeme := by
  by_cases hfixed : IsFixed lexeme
  · obtain ⟨t, ht, rfl⟩ := hfixed
    exact .inl ⟨_, .fixed ht⟩
  · rcases h with h | h | h | h | h
    · exact .inl ⟨_, .blanks h⟩
    · exact .inl ⟨_, .comment h⟩
    · by_cases hn : number lexeme < 0x8000000000000000
      · exact .inl ⟨_, .integer (n := ⟨number lexeme, by omega, by omega⟩) h rfl⟩
      · exact .inr ⟨h, by omega⟩
    · exact .inl ⟨_, .name h hfixed⟩
    · exact absurd h hfixed

theorem exists_cut_or_stuck (hne : text ≠ []) :
    (∃ lexeme after meaning, text = lexeme ++ after ∧ Longest lexeme after ∧
      Denotes lexeme meaning) ∨ ∃ cause, Stuck text cause := by
  by_cases h : ∃ lexeme, lexeme <+: text ∧ Matches lexeme
  · obtain ⟨_, ⟨_, rfl⟩, hmatch⟩ := h
    obtain ⟨lexeme, after, heq, hl⟩ := exists_longest hmatch _
    rw [heq]
    rcases denotes_or_oversized hl.1 with ⟨meaning, hd⟩ | ⟨hs, hn⟩
    · exact .inl ⟨lexeme, after, meaning, rfl, hl, hd⟩
    · exact .inr ⟨_, .oversized hs hl hn⟩
  · obtain ⟨c, cs, rfl⟩ := List.exists_cons_of_ne_nil hne
    exact .inr ⟨_, .unknown fun lexeme hpre hmatch => h ⟨lexeme, hpre, hmatch⟩⟩

end

end Lexeme

/-! ### All cuts -/

namespace Token

section

variable {line : Nat} {lexeme after : List Char}

/-- A lexeme other than the line break itself has no line break in it. -/
theorem count_newline_of_longest {meaning : Option Token} (h : Longest lexeme after)
    (hd : Denotes lexeme meaning) :
    lexeme.count '\n' = if meaning = some newline then 1 else 0 := by
  obtain ⟨c, ds, rfl⟩ := List.exists_cons_of_ne_nil (ne_nil_of_matches h.1)
  have hcount := count_newline_next c (ds ++ after)
  rw [next_of_denotes hd h, ← List.cons_append, List.count_append] at hcount
  have hmeaning : ofMeaning meaning = .token newline ↔ meaning = some newline := by
    cases meaning <;> simp [ofMeaning]
  simp only [hmeaning] at hcount
  omega

theorem scanFrom_skip (h : Longest lexeme after) (hd : Denotes lexeme none) :
    scanFrom line (lexeme ++ after) = scanFrom (line + lexeme.count '\n') after := by
  have hcount := count_newline_of_longest h hd
  obtain ⟨c, ds, rfl⟩ := List.exists_cons_of_ne_nil (ne_nil_of_matches h.1)
  have hnext := next_of_denotes hd h
  rw [hcount, if_neg (by simp), List.cons_append, scanFrom_of_skipped (by rw [hnext]; rfl), hnext,
    Nat.add_zero]

theorem scanFrom_token {t : Token} (h : Longest lexeme after) (hd : Denotes lexeme (some t)) :
    scanFrom line (lexeme ++ after) = (⟨t, line + lexeme.count '\n'⟩ :: ·) <$>
      scanFrom (line + lexeme.count '\n') after := by
  have hcount := count_newline_of_longest h hd
  obtain ⟨c, ds, rfl⟩ := List.exists_cons_of_ne_nil (ne_nil_of_matches h.1)
  have hnext := next_of_denotes hd h
  by_cases ht : t = newline
  · subst ht
    rw [hcount, if_pos rfl, List.cons_append, scanFrom_of_newline (by rw [hnext]; rfl), hnext]
  · rw [hcount, if_neg (by simpa using ht), List.cons_append,
      scanFrom_of_token (by rw [hnext]; rfl) ht, hnext, Nat.add_zero]

theorem scanFrom_stuck {text : List Char} {cause : ParseError.Cause} (h : Stuck text cause) :
    scanFrom line text = .error ⟨cause, line⟩ := by
  cases h with
  | @oversized digits after hs hl hn =>
    obtain ⟨c, ds, rfl⟩ := List.exists_cons_of_ne_nil hs.1
    have hnext := next_of_numeral hs hl
    have hnone : Integer64.ofInt? (number (c :: ds)) = none :=
      Integer64.ofInt?_eq_none_iff.mpr (.inr (by omega))
    rw [List.cons_append]
    exact scanFrom_of_oversized (by rw [hnext, ofDigits, ofInt, ← number, hnone])
  | unknown h => exact scanFrom_of_unknown (by rw [next_of_unmatched h])

end

/-- The scanner follows every cut, up to where it ends. -/
theorem scanFrom_of_segmented {before text rest : List Char} {ts : List Located}
    (h : Segmented before text ts rest) :
    ∃ cut, text = cut ++ rest ∧ scanFrom (1 + before.count '\n') text =
      (ts ++ ·) <$> scanFrom (1 + (before ++ cut).count '\n') rest := by
  induction h with
  | @done before rest =>
    refine ⟨[], rfl, ?_⟩
    rw [List.append_nil]
    exact (id_map _).symm
  | @skip before lexeme after ts rest hl hd _ ih =>
    obtain ⟨cut, rfl, hscan⟩ := ih
    refine ⟨lexeme ++ cut, (List.append_assoc _ _ _).symm, ?_⟩
    rw [List.count_append, ← Nat.add_assoc, List.append_assoc] at hscan
    rw [scanFrom_skip hl hd, hscan]
  | @token before lexeme after t ts rest hl hd _ ih =>
    obtain ⟨cut, rfl, hscan⟩ := ih
    refine ⟨lexeme ++ cut, (List.append_assoc _ _ _).symm, ?_⟩
    rw [List.append_assoc] at hscan
    rw [scanFrom_token hl hd, Nat.add_assoc, ← List.count_append, hscan, ← comp_map]
    rfl

theorem exists_segmented (before text : List Char) :
    ∃ ts rest, Segmented before text ts rest ∧ (rest = [] ∨ ∃ cause, Stuck rest cause) := by
  by_cases hne : text = []
  · exact ⟨[], text, .done, .inl hne⟩
  · rcases exists_cut_or_stuck hne with ⟨lexeme, after, meaning, rfl, hl, hd⟩ | hstuck
    · have hlt : after.length < (lexeme ++ after).length := by
        rw [List.length_append]
        have := List.length_pos_iff.mpr (ne_nil_of_matches hl.1)
        omega
      obtain ⟨ts, rest, hseg, hend⟩ := exists_segmented (before ++ lexeme) after
      cases meaning with
      | none => exact ⟨ts, rest, .skip hl hd hseg, hend⟩
      | some t => exact ⟨_ :: ts, rest, .token hl hd hseg, hend⟩
    · exact ⟨[], text, .done, .inr hstuck⟩
termination_by text.length

/-- Every token of a cut is the meaning of a lexeme. -/
theorem denotes_of_segmented {before text rest : List Char} {ts : List Located}
    (h : Segmented before text ts rest) :
    ∀ u ∈ ts, ∃ lexeme, Denotes lexeme (some u.token) := by
  induction h with
  | done =>
    intro u hu
    cases hu
  | skip _ _ _ ih => exact ih
  | token _ hd _ ih =>
    intro u hu
    rcases List.mem_cons.mp hu with rfl | hu
    · exact ⟨_, hd⟩
    · exact ih u hu

theorem ne_comment_of_denotes {lexeme : List Char} {t : Token} (h : Denotes lexeme (some t)) :
    t ≠ comment := by
  cases h with
  | integer | name => simp
  | fixed ht =>
    rintro rfl
    cases ht

variable {source : String} {ts : List Located}

theorem scan_of_segmented (h : Segmented [] source.toList ts []) : scan source = .ok ts := by
  obtain ⟨cut, -, hscan⟩ := scanFrom_of_segmented h
  rw [scanFrom] at hscan
  unfold scan
  rw [List.count_nil, Nat.add_zero] at hscan
  rw [hscan]
  simp [Functor.map, Except.map]

theorem scan_of_stuck {before rest : List Char} {cause : ParseError.Cause}
    (hsource : source.toList = before ++ rest) (h : Segmented [] source.toList ts rest)
    (hstuck : Stuck rest cause) : scan source = .error ⟨cause, 1 + before.count '\n'⟩ := by
  obtain ⟨cut, hcut, hscan⟩ := scanFrom_of_segmented h
  obtain rfl : before = cut := List.append_cancel_right (hsource.symm.trans hcut)
  rw [scanFrom_stuck hstuck] at hscan
  exact hscan

/-- A source is cut to its end or it is stuck, and the scanner reports which. -/
theorem segmented_or_stuck (source : String) :
    (∃ ts, Segmented [] source.toList ts [] ∧ scan source = .ok ts) ∨
    ∃ before ts rest cause, source.toList = before ++ rest ∧ Segmented [] source.toList ts rest ∧
      Stuck rest cause ∧ scan source = .error ⟨cause, 1 + before.count '\n'⟩ := by
  obtain ⟨ts, rest, hseg, rfl | ⟨cause, hstuck⟩⟩ := exists_segmented [] source.toList
  · exact .inl ⟨ts, hseg, scan_of_segmented hseg⟩
  · obtain ⟨before, hsource, -⟩ := scanFrom_of_segmented hseg
    exact .inr ⟨before, ts, rest, cause, hsource, hseg, hstuck, scan_of_stuck hsource hseg hstuck⟩

theorem segmented_of_scan (h : scan source = .ok ts) : Segmented [] source.toList ts [] := by
  rcases segmented_or_stuck source with ⟨ts', hseg, hscan⟩ | ⟨_, _, _, _, -, -, -, hscan⟩
  · cases h.symm.trans hscan
    exact hseg
  · cases h.symm.trans hscan

end Token

/-- The scanner cuts a source into longest lexemes. It succeeds exactly if they reach the end, and
then lists the tokens among them, each on its line. Otherwise it reports why the cut is stuck and on
which line. -/
theorem scan_is_longest_match_segmentation (source : String) :
    (∀ ts, Token.scan source = .ok ts ↔
      Segmented [] source.toList ts [] ∧ ∀ u ∈ ts, u.token ≠ .comment) ∧
    ∀ e, Token.scan source = .error e ↔
      ∃ before ts rest, source.toList = before ++ rest ∧ Segmented [] source.toList ts rest ∧
        Stuck rest e.cause ∧ e.line = 1 + before.count '\n' := by
  constructor
  · intro ts
    constructor
    · intro h
      have hseg := Token.segmented_of_scan h
      refine ⟨hseg, fun u hu => ?_⟩
      obtain ⟨lexeme, hd⟩ := Token.denotes_of_segmented hseg u hu
      exact Token.ne_comment_of_denotes hd
    · rintro ⟨hseg, -⟩
      exact Token.scan_of_segmented hseg
  · rintro ⟨cause, line⟩
    constructor
    · intro h
      rcases Token.segmented_or_stuck source with
        ⟨_, -, hscan⟩ | ⟨before, ts, rest, _, hsource, hseg, hstuck, hscan⟩
      · cases h.symm.trans hscan
      · cases h.symm.trans hscan
        exact ⟨before, ts, rest, hsource, hseg, hstuck, rfl⟩
    · rintro ⟨before, ts, rest, hsource, hseg, hstuck, rfl⟩
      exact Token.scan_of_stuck hsource hseg hstuck

/-- A word that goes on is a name, of two symbols the longer comes first, leading zeros do not
matter, and a comment ends before its line does. -/
theorem scan_is_longest_match_segmentation_of_overlapping_lexemes :
    let ts : List Located := [⟨.identifier "iffy", 1⟩, ⟨.arithmetic .floorDiv, 1⟩, ⟨.assign, 1⟩,
      ⟨.integer ⟨7, by decide, by decide⟩, 1⟩, ⟨.newline, 2⟩, ⟨.keyword .ifWord, 2⟩]
    Segmented [] "iffy//=007#!\nif".toList ts [] ∧ ∀ u ∈ ts, u.token ≠ .comment :=
  ((scan_is_longest_match_segmentation "iffy//=007#!\nif").1 _).mp (by decide +kernel)

end BoundedScript
