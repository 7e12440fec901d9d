import BoundedScript.Proofs.Lines
import BoundedScript.Proofs.Parser.Completeness
import BoundedScript.Proofs.Parser.Stability

/-!
# Parsing renumbered tokens

A parser hands lines on and never looks at them. On tokens with other lines it therefore takes the
same decisions: it builds the same tree with the other lines in it, or fails for the same cause on
the other line. The only line that a parser makes up is the one of an end of input that it cannot
place, and that one stays as it is.
-/

namespace BoundedScript

/-- The second error is the first one with its line renumbered. -/
inductive ParseError.Renumbered (f : Nat → Nat) : ParseError → ParseError → Prop
  | moved (cause : Cause) (line : Nat) : Renumbered f ⟨cause, line⟩ ⟨cause, f line⟩
  | unplaced : Renumbered f ⟨.endOfInput, 0⟩ ⟨.endOfInput, 0⟩

namespace ParseError.Renumbered

variable {f : Nat → Nat} {e e' : ParseError}

theorem cause_eq (h : e.Renumbered f e') : e'.cause = e.cause := by
  cases h with
  | moved | unplaced => rfl

theorem line_eq_or_unplaced (h : e.Renumbered f e') :
    e'.line = f e.line ∨ e = ⟨.endOfInput, 0⟩ := by
  cases h with
  | moved => exact .inl rfl
  | unplaced => exact .inr rfl

end ParseError.Renumbered

namespace Parser

/-- The same tokens on other lines. -/
def renumber (f : Nat → Nat) (ts : List Located) : List Located := ts.map (Located.mapLine f)

theorem renumber_cons (f : Nat → Nat) (t : Token) (line : Nat) (ts : List Located) :
    renumber f (⟨t, line⟩ :: ts) = ⟨t, f line⟩ :: renumber f ts := rfl

section

variable {α β : Type} {f : Nat → Nat} {g : α → α} {g' : β → β} {ts ts' us us' : List Located}

/-- `y` does what `x` does, with all lines renumbered. -/
inductive Renumbers (f : Nat → Nat) (g : α → α) : Result α ts → Result α us → Prop
  | reads {a rest h h'} : Renumbers f g (.ok ⟨a, rest, h⟩) (.ok ⟨g a, renumber f rest, h'⟩)
  | fails {error error' rest rest'} : error.Renumbered f error' →
      Renumbers f g (.error ⟨error, rest⟩) (.error ⟨error', rest'⟩)

variable {x : Result α ts} {y : Result α us}

theorem renumbers_ok {a b : α} {rest : List Located} {h : rest.length < ts.length}
    {h' : (renumber f rest).length < us.length} (hb : g a = b) :
    Renumbers f g (.ok ⟨a, rest, h⟩ : Result α ts)
      (.ok ⟨b, renumber f rest, h'⟩ : Result α us) := by
  subst hb
  exact .reads

theorem Renumbers.bind {F : Parsed α ts → Result β ts'} {G : Parsed α us → Result β us'}
    (hx : Renumbers f g x y)
    (hF : ∀ a rest h h', Renumbers f g' (F ⟨a, rest, h⟩) (G ⟨g a, renumber f rest, h'⟩)) :
    Renumbers f g' (x >>= F) (y >>= G) := by
  cases hx with
  | reads => exact hF _ _ _ _
  | fails he => exact .fails he

theorem Renumbers.reads_of_reads {a : α} {rest : List Located} (h : Renumbers f g x y)
    (hx : Reads x a rest) : Reads y (g a) (renumber f rest) := by
  obtain ⟨hlt, rfl⟩ := hx
  cases h
  exact ⟨_, rfl⟩

theorem Renumbers.exists_error {failure : Failure} (h : Renumbers f g x y)
    (hx : x = .error failure) :
    ∃ failure', y = .error failure' ∧ failure.error.Renumbered f failure'.error := by
  subst hx
  cases h with
  | fails he => exact ⟨_, rfl, he⟩

theorem Renumbers.check {c c' : Except Failure Unit} {F : Unit → Result β ts'}
    {G : Unit → Result β us'}
    (hc : ∀ failure, c = .error failure →
      ∃ failure', c' = .error failure' ∧ failure.error.Renumbered f failure'.error)
    (hok : c = .ok () → c' = .ok ()) (hF : Renumbers f g' (F ()) (G ())) :
    Renumbers f g' (c >>= F) (c' >>= G) := by
  cases c with
  | error failure =>
    obtain ⟨failure', rfl, he⟩ := hc failure rfl
    exact .fails he
  | ok u =>
    rw [hok rfl]
    exact hF

theorem eq_cons_of_renumber {t : Token} {line : Nat} {rest : List Located}
    (h : renumber f ts = ⟨t, line⟩ :: rest) :
    ∃ l after, ts = ⟨t, l⟩ :: after ∧ renumber f after = rest := by
  cases ts with
  | nil => cases h
  | cons u after =>
    obtain ⟨t', l⟩ := u
    cases h
    exact ⟨l, after, rfl, rfl⟩

theorem eq_cons_cons_of_renumber {t t' : Token} {line line' : Nat} {rest : List Located}
    (h : renumber f ts = ⟨t, line⟩ :: ⟨t', line'⟩ :: rest) :
    ∃ l l' after, ts = ⟨t, l⟩ :: ⟨t', l'⟩ :: after := by
  obtain ⟨l, after, rfl, hafter⟩ := eq_cons_of_renumber h
  obtain ⟨l', after, rfl, -⟩ := eq_cons_of_renumber hafter
  exact ⟨l, l', after, rfl⟩

end

variable (f : Nat → Nat)

/-! ### Single tokens -/

section

variable {ts : List Located}

theorem renumbers_expect (what : Expectation) (wanted : Token) :
    Renumbers f f (expect what wanted ts) (expect what wanted (renumber f ts)) := by
  cases ts with
  | nil => exact .fails .unplaced
  | cons u ts =>
    obtain ⟨t, line⟩ := u
    rw [expect, renumber_cons, expect]
    split
    · exact .reads
    · exact .fails (.moved _ line)

theorem renumbers_loopVariable :
    Renumbers f id (loopVariable ts) (loopVariable (renumber f ts)) := by
  cases ts with
  | nil => exact .fails .unplaced
  | cons u ts =>
    obtain ⟨t, line⟩ := u
    cases t with
    | identifier name => exact .reads
    | _ => exact .fails (.moved _ line)

theorem renumbers_closeParen (line : Nat) :
    Renumbers f id (closeParen line ts) (closeParen (f line) (renumber f ts)) := by
  cases ts with
  | nil => exact .fails (.moved _ line)
  | cons u ts =>
    obtain ⟨t, l⟩ := u
    cases t with
    | closeParen => exact .reads
    | _ => exact .fails (.moved _ line)

theorem skipSeparators_renumber (ts : List Located) :
    skipSeparators (renumber f ts) = renumber f (skipSeparators ts) := by
  unfold skipSeparators
  exact List.dropWhile_map

theorem afterElse?_renumber (ts : List Located) :
    afterElse? (renumber f ts) = (afterElse? ts).map (renumber f) := by
  fun_induction afterElse? ts with
  | case1 line ts ih =>
    rw [renumber_cons, afterElse?]
    exact ih
  | case2 line ts => rw [renumber_cons, afterElse?, Option.map_some]
  | case3 ts hnewline helse =>
    rw [afterElse?.eq_3, Option.map_none]
    · intro line rest h
      obtain ⟨l, after, rfl, -⟩ := eq_cons_of_renumber h
      exact hnewline l after rfl
    · intro line rest h
      obtain ⟨l, after, rfl, -⟩ := eq_cons_of_renumber h
      exact helse l after rfl

end

/-! ### Expressions -/

theorem Level.join_mapLines {level : Level} {t : Token} {join : Expr → Expr → Nat → Expr}
    (h : level.join? t = some join) (left right : Expr) (line : Nat) :
    (join left right line).mapLines f = join (left.mapLines f) (right.mapLines f) (f line) := by
  unfold Level.join? at h
  split at h
  · cases h
    rw [Expr.mapLines]
  · cases h
    rw [Expr.mapLines]
  · cases h
    rw [Expr.mapLines]
  · split at h
    · cases h
      rw [Expr.mapLines]
    · cases h
  · split at h
    · cases h
    · cases h
      rw [Expr.mapLines]
  · cases h

/-- Where a parser takes a clause because the ones before it do not fit the tokens, they do not fit the
renumbered tokens either. -/
theorem expressions_renumber :
    (∀ level ts, Renumbers f (Expr.mapLines f) (chain level ts) (chain level (renumber f ts))) ∧
    (∀ level ts left rest h ts' h',
      Renumbers f (Expr.mapLines f) (extend level ts left rest h)
        (extend level ts' (left.mapLines f) (renumber f rest) h')) ∧
    (∀ level ts,
      Renumbers f (Expr.mapLines f) (operand level ts) (operand level (renumber f ts))) ∧
    (∀ ts, Renumbers f (Expr.mapLines f) (signed ts) (signed (renumber f ts))) ∧
    (∀ ts, Renumbers f (Expr.mapLines f) (primary ts) (primary (renumber f ts))) ∧
    (∀ line ts,
      Renumbers f (Expr.mapLines f) (grouping line ts) (grouping (f line) (renumber f ts))) ∧
    (∀ ts, Renumbers f (Expr.mapLines f) (negation ts) (negation (renumber f ts))) := by
  apply chain.mutual_induct
  case case1 =>
    intro level ts ho he
    rw [chain, chain]
    exact ho.bind fun left rest h h' => he left rest h _ h'
  case case2 =>
    intro level ts left h _ ts' h'
    simp only [renumber, List.map_nil, extend]
    exact .reads
  case case3 =>
    intro level ts left t line after h hj _ ts' h'
    simp only [renumber_cons, extend, hj]
    exact .reads
  case case4 =>
    intro level ts left t line after h join hj _ ho he ts' h'
    simp only [renumber_cons, extend, hj]
    apply ho.bind
    intro right rest h h'
    rw [← Level.join_mapLines f hj]
    exact he right rest h _ _
  case case5 | case6 | case7 | case8 | case9 =>
    intro ts ih
    rw [operand, operand]
    exact ih
  case case10 =>
    intro line ts ih
    rw [renumber_cons, signed, signed]
    exact ih.bind fun _ _ _ _ => renumbers_ok (by rw [Expr.mapLines])
  case case11 =>
    intro ts hts ih
    rw [signed.eq_2 ts hts, signed.eq_2]
    · exact ih
    · intro line rest heq
      obtain ⟨l, after, rfl, -⟩ := eq_cons_of_renumber heq
      exact hts l after rfl
  case case12 =>
    change Renumbers f _ (primary []) (primary [])
    rw [primary]
    exact .fails .unplaced
  case case13 | case14 | case15 =>
    intro a line ts
    rw [renumber_cons, primary, primary]
    exact renumbers_ok (by rw [Expr.mapLines])
  case case16 =>
    intro line ts ih
    rw [renumber_cons, primary, primary]
    exact ih.bind fun _ _ _ _ => .reads
  case case17 =>
    intro t line ts hi hb hn ho
    rw [renumber_cons, primary, primary]
    · exact .fails (.moved _ line)
    all_goals assumption
  case case18 =>
    intro line name l₁ l₂ ts ih
    rw [renumber_cons, renumber_cons, grouping, grouping]
    apply ih.bind
    intro value rest h h'
    apply (renumbers_closeParen f line).bind
    intro _ rest h h'
    exact renumbers_ok (by rw [Expr.mapLines])
  case case19 =>
    intro line ts hts ih
    rw [grouping.eq_2 line ts hts, grouping.eq_2]
    · apply ih.bind
      intro e rest h h'
      exact (renumbers_closeParen f line).bind fun _ _ _ _ => .reads
    · intro name l₁ l₂ after heq
      obtain ⟨l, l', after, rfl⟩ := eq_cons_cons_of_renumber heq
      exact hts name l l' after rfl
  case case20 =>
    intro line ts ih
    rw [renumber_cons, negation, negation]
    exact ih.bind fun _ _ _ _ => renumbers_ok (by rw [Expr.mapLines])
  case case21 =>
    intro ts hts ih
    rw [negation.eq_2 ts hts, negation.eq_2]
    · exact ih
    · intro line rest heq
      obtain ⟨l, after, rfl, -⟩ := eq_cons_of_renumber heq
      exact hts l after rfl

/-! ### Statements -/

section

variable {ts rest : List Located}

theorem renumbers_expression :
    Renumbers f (Expr.mapLines f) (expression ts) (expression (renumber f ts)) :=
  (expressions_renumber f).1 .disjunction ts

theorem endStatement_renumber_ok {inBlock : Bool} (h : endStatement inBlock rest = .ok ()) :
    endStatement inBlock (renumber f rest) = .ok () := by
  cases rest with
  | nil => rfl
  | cons u rest =>
    obtain ⟨t, line⟩ := u
    rw [endStatement] at h
    rw [renumber_cons, endStatement]
    split at h
    · next hsep => exact if_pos hsep
    · cases h

theorem endStatement_renumber_error {inBlock : Bool} {failure : Failure}
    (h : endStatement inBlock rest = .error failure) :
    ∃ failure', endStatement inBlock (renumber f rest) = .error failure' ∧
      failure.error.Renumbered f failure'.error := by
  cases rest with
  | nil => cases h
  | cons u rest =>
    obtain ⟨t, line⟩ := u
    rw [endStatement] at h
    rw [renumber_cons, endStatement]
    split at h
    · cases h
    · next hsep =>
      cases h
      exact ⟨_, if_neg hsep, .moved _ line⟩

/-- Looking ahead for an `else` gives the same answer. -/
theorem renumbers_lookahead {β : Type} {g : β → β} {us us' : List Located}
    {x : Result β us} {y : Result β us'}
    {F : ∀ after, afterElse? rest = some after → Result β us}
    {G : ∀ after, afterElse? (renumber f rest) = some after → Result β us'}
    (hx : Renumbers f g x y)
    (hF : ∀ after h h', Renumbers f g (F after h) (G (renumber f after) h')) :
    Renumbers f g
      (match h : afterElse? rest with
        | none => x
        | some after => F after h)
      (match h : afterElse? (renumber f rest) with
        | none => y
        | some after => G after h) := by
  have hsame := afterElse?_renumber f rest
  split
  · next hnone =>
    rw [hnone] at hsame
    split
    · exact hx
    · next after hsome => cases hsame.symm.trans hsome
  · next after hsome =>
    rw [hsome] at hsame
    split
    · next hnone => cases hsame.symm.trans hnone
    · next after' hsome' =>
      cases hsame.symm.trans hsome'
      exact hF after hsome hsome'

theorem statements_renumber :
    (∀ ts, Renumbers f (Expr.mapLines f) (statement ts) (statement (renumber f ts))) ∧
    (∀ ts, Renumbers f (Expr.mapLines f) (forLoop ts) (forLoop (renumber f ts))) ∧
    (∀ ts, Renumbers f (Expr.mapLines f) (block ts) (block (renumber f ts))) ∧
    (∀ line ts, Renumbers f (List.map (Expr.mapLines f)) (blockBody line ts)
      (blockBody (f line) (renumber f ts))) ∧
    (∀ ts, Renumbers f (Expr.mapLines f) (whileLoop ts) (whileLoop (renumber f ts))) ∧
    (∀ ts, Renumbers f (Expr.mapLines f) (conditional ts) (conditional (renumber f ts))) := by
  apply statement.mutual_induct
  case case1 | case2 | case3 =>
    intro line ts ih
    rw [renumber_cons, statement, statement]
    exact ih
  case case4 =>
    intro name line l₁ ts
    rw [renumber_cons, renumber_cons, statement, statement]
    exact (renumbers_expression f).bind fun _ _ _ _ => renumbers_ok (by rw [Expr.mapLines])
  case case5 =>
    intro name line op l₁ ts
    rw [renumber_cons, renumber_cons, statement, statement]
    exact (renumbers_expression f).bind fun _ _ _ _ =>
      renumbers_ok (by rw [Expr.mapLines, Expr.mapLines, Expr.mapLines])
  case case6 =>
    intro ts hif hwhile hfor hassign hupdate
    rw [statement.eq_6 ts hif hwhile hfor hassign hupdate, statement.eq_6]
    · exact renumbers_expression f
    · intro line after heq
      obtain ⟨l, after, rfl, -⟩ := eq_cons_of_renumber heq
      exact hif l after rfl
    · intro line after heq
      obtain ⟨l, after, rfl, -⟩ := eq_cons_of_renumber heq
      exact hwhile l after rfl
    · intro line after heq
      obtain ⟨l, after, rfl, -⟩ := eq_cons_of_renumber heq
      exact hfor l after rfl
    · intro name l₁ l₂ after heq
      obtain ⟨l, l', after, rfl⟩ := eq_cons_cons_of_renumber heq
      exact hassign name l l' after rfl
    · intro name l₁ op l₂ after heq
      obtain ⟨l, l', after, rfl⟩ := eq_cons_cons_of_renumber heq
      exact hupdate name l op l' after rfl
  case case7 =>
    intro ts ih
    rw [forLoop, forLoop]
    refine (renumbers_expect f _ _).bind fun line r₁ h₁ _ => ?_
    refine (renumbers_loopVariable f).bind fun counter r₂ h₂ _ => ?_
    refine (renumbers_expect f _ _).bind fun _ r₃ h₃ _ => ?_
    refine (renumbers_expression f).bind fun first r₄ h₄ _ => ?_
    refine (renumbers_expect f _ _).bind fun _ r₅ h₅ _ => ?_
    refine (renumbers_expression f).bind fun last r₆ h₆ _ => ?_
    exact (ih r₁ h₁ r₂ h₂ r₃ h₃ r₄ h₄ r₅ h₅ r₆ h₆).bind fun _ _ _ _ =>
      renumbers_ok (by rw [Expr.mapLines]; rfl)
  case case8 =>
    intro ts ih
    rw [block, block]
    refine (renumbers_expect f _ _).bind fun line r₁ h₁ _ => ?_
    exact (ih line r₁ h₁).bind fun _ _ _ _ =>
      renumbers_ok (by rw [Expr.mapLines, Expr.mapLinesAll_eq_map])
  case case9 =>
    intro line ts hts
    have hts' : skipSeparators (renumber f ts) = [] := by rw [skipSeparators_renumber, hts]; rfl
    rw [blockBody_of_skipSeparators_nil hts, blockBody_of_skipSeparators_nil hts']
    exact .fails (.moved _ line)
  case case10 =>
    intro line ts l rest hts
    have hts' : skipSeparators (renumber f ts) = ⟨.closeBrace, f l⟩ :: renumber f rest := by
      rw [skipSeparators_renumber, hts, renumber_cons]
    rw [blockBody_of_closeBrace hts, blockBody_of_closeBrace hts']
    exact renumbers_ok rfl
  case case11 =>
    intro line ts t after hne hts _ ihs ihb
    obtain ⟨t, l⟩ := t
    have hts' : skipSeparators (renumber f ts) = ⟨t, f l⟩ :: renumber f after := by
      rw [skipSeparators_renumber, hts, renumber_cons]
    have hne' : ∀ k, (⟨t, f l⟩ : Located) ≠ ⟨.closeBrace, k⟩ := by
      intro k heq
      cases heq
      exact hne l rfl
    rw [blockBody_of_statement hts hne, blockBody_of_statement hts' hne']
    refine ihs.bind fun first rest h _ => ?_
    apply Renumbers.check (fun _ => endStatement_renumber_error f) (endStatement_renumber_ok f)
    exact (ihb rest h).bind fun _ _ _ _ => renumbers_ok rfl
  case case12 =>
    intro ts ih
    rw [whileLoop, whileLoop]
    refine (renumbers_expect f _ _).bind fun line r₁ h₁ _ => ?_
    refine (renumbers_expression f).bind fun condition r₂ h₂ _ => ?_
    exact (ih r₁ h₁ r₂ h₂).bind fun _ _ _ _ => renumbers_ok (by rw [Expr.mapLines])
  case case13 =>
    intro ts ihthen ihif ihelse
    rw [conditional, conditional]
    refine (renumbers_expect f _ _).bind fun line r₁ h₁ _ => ?_
    refine (renumbers_expression f).bind fun condition r₂ h₂ _ => ?_
    refine (ihthen r₁ h₁ r₂ h₂).bind fun thenBranch r₃ h₃ _ => ?_
    refine renumbers_lookahead f (renumbers_ok (by rw [Expr.mapLines])) ?_
    intro r₄ h₄ _
    have hr₄ := length_of_afterElse? h₄
    cases r₄ with
    | nil => exact .fails (.moved _ line)
    | cons u after =>
      obtain ⟨t, l⟩ := u
      cases t with
      | keyword word =>
        cases word with
        | ifWord =>
          exact (ihif r₁ h₁ r₂ h₂ r₃ h₃ l after hr₄).bind fun _ _ _ _ =>
            renumbers_ok (by rw [Expr.mapLines])
        | _ => exact .fails (.moved _ l)
      | openBrace =>
        exact (ihelse r₁ h₁ r₂ h₂ r₃ h₃ l after hr₄).bind fun _ _ _ _ =>
          renumbers_ok (by rw [Expr.mapLines])
      | _ => exact .fails (.moved _ l)

/-! ### Programs -/

theorem program_renumber_ok {es : List Expr} (h : program ts = .ok es) :
    program (renumber f ts) = .ok (es.map (Expr.mapLines f)) :=
  program_complete ((program_sound h).mapLines f)

theorem program_renumber_error {failure : Failure} (h : program ts = .error failure) :
    ∃ failure', program (renumber f ts) = .error failure' ∧
      failure.error.Renumbered f failure'.error := by
  induction ts using program.induct with
  | case1 ts hts => exact absurd rfl ((program_eq_error_iff hts).mp h).1
  | case2 ts u after hts _ ih =>
    have hstatement := (statements_renumber f).1 (u :: after)
    have hskip : skipSeparators (renumber f ts) = renumber f (u :: after) := by
      rw [skipSeparators_renumber, hts]
    have hne : renumber f (u :: after) ≠ [] := List.cons_ne_nil _ _
    obtain ⟨-, h | ⟨first, rest, hr, h | ⟨hend, h⟩⟩⟩ := (program_eq_error_iff hts).mp h
    · obtain ⟨failure', hf, he⟩ := hstatement.exists_error h
      exact ⟨failure', (program_eq_error_iff hskip).mpr ⟨hne, .inl hf⟩, he⟩
    · have hr' := hstatement.reads_of_reads hr
      obtain ⟨failure', hf, he⟩ := endStatement_renumber_error f h
      exact ⟨failure', (program_eq_error_iff hskip).mpr
        ⟨hne, .inr ⟨_, _, hr', .inl hf⟩⟩, he⟩
    · have hr' := hstatement.reads_of_reads hr
      have hend' := endStatement_renumber_ok f hend
      obtain ⟨failure', hf, he⟩ := ih rest hr.shorter h
      exact ⟨failure', (program_eq_error_iff hskip).mpr
        ⟨hne, .inr ⟨_, _, hr', .inr ⟨hend', hf⟩⟩⟩, he⟩

end

end Parser

end BoundedScript
