import BoundedScript.Proofs.Parser.Completeness

/-!
# Reading on after the end

A parser that complains about a token has made up its mind on the tokens up to that one. So it
complains in the same way when more tokens follow. The same is not true of everything that a parser
reads: an expression at the end of the input may go on, and a conditional may get an `else`, even
after line breaks. What is left after a reading tells whether more input could have changed it.
-/

namespace BoundedScript

/-- A token or a character stands where it may not stand. -/
def ParseError.Cause.isUnexpected : Cause → Bool
  | unknownCharacter _ | unexpected _ | expected _ _ => true
  | literalTooLarge | endOfInput | unclosedParenthesis | unclosedBlock => false

namespace Parser

/-! ### What a rest settles -/

/-- After a phrase that ends with a delimiter nothing else matters. -/
def Always (_rest : List Located) : Prop := True

/-- There is a token that ended the phrase. -/
def Stopped (rest : List Located) : Prop := rest ≠ []

/-- There is a token other than a line break, so it is known whether an `else` follows. -/
def Settled (rest : List Located) : Prop := ∃ u ∈ rest, u.token ≠ .newline

theorem Settled.stopped {rest : List Located} (h : Settled rest) : Stopped rest := by
  obtain ⟨u, hu, -⟩ := h
  exact List.ne_nil_of_mem hu

section

variable {α β : Type} {settles settles' : List Located → Prop} {more ts ts' us us' : List Located}

/-- `y` repeats what `x` did: every complaint about a token, and every reading whose rest settles
it, with `more` after the rest. -/
structure Repeats (settles : List Located → Prop) (more : List Located) (x : Result α ts)
    (y : Result α us) : Prop where
  complaint : ∀ failure, x = .error failure → failure.error.cause.isUnexpected = true →
    ∃ failure', y = .error failure' ∧ failure'.error = failure.error
  reading : ∀ a rest, Reads x a rest → settles rest → Reads y a (rest ++ more)

/-- There is nothing in `x` to repeat. -/
structure Inert (settles : List Located → Prop) (x : Result α ts) : Prop where
  complaint : ∀ failure, x = .error failure → failure.error.cause.isUnexpected = false
  reading : ∀ a rest, Reads x a rest → ¬ settles rest

variable {x : Result α ts} {y : Result α us}

theorem Inert.repeats (h : Inert settles x) : Repeats settles more x y where
  complaint failure hx hu := by
    rw [h.complaint failure hx] at hu
    cases hu
  reading a rest hx hs := absurd hs (h.reading a rest hx)

theorem inert_error {failure : Failure} (h : failure.error.cause.isUnexpected = false) :
    Inert settles (.error failure : Result α ts) where
  complaint failure' hx := by
    cases hx
    exact h
  reading a rest hx := absurd hx not_reads_error

theorem inert_ok {p : Parsed α ts} (h : ¬ settles p.rest) :
    Inert settles (.ok p : Result α ts) where
  complaint failure hx := by cases hx
  reading a rest hx := (reads_ok.mp hx).2 ▸ h

theorem repeats_ok {a : α} {rest : List Located} {h : rest.length < ts.length}
    {h' : (rest ++ more).length < us.length} :
    Repeats settles more (.ok ⟨a, rest, h⟩ : Result α ts)
      (.ok ⟨a, rest ++ more, h'⟩ : Result α us) where
  complaint failure hx := by cases hx
  reading b rest' hx _ := by
    obtain ⟨rfl, rfl⟩ := reads_ok.mp hx
    exact reads_ok.mpr ⟨rfl, rfl⟩

theorem repeats_error {error : ParseError} {rest rest' : List Located} :
    Repeats settles more (.error ⟨error, rest⟩ : Result α ts)
      (.error ⟨error, rest'⟩ : Result α us) where
  complaint failure hx _ := by
    cases hx
    exact ⟨_, rfl, rfl⟩
  reading a rest hx := absurd hx not_reads_error

theorem Repeats.mono (h : Repeats settles more x y) (hs : ∀ rest, settles' rest → settles rest) :
    Repeats settles' more x y where
  complaint := h.complaint
  reading a rest hx hrest := h.reading a rest hx (hs rest hrest)

theorem Inert.mono (h : Inert settles x) (hs : ∀ rest, settles' rest → settles rest) :
    Inert settles' x where
  complaint := h.complaint
  reading a rest hx hrest := h.reading a rest hx (hs rest hrest)

/-- Where the rest of the first part settles it, the second part starts alike. Where it does not,
the second part must have nothing to repeat. -/
theorem Repeats.bind {f : Parsed α ts → Result β ts'} {g : Parsed α us → Result β us'}
    (hx : Repeats settles more x y)
    (hf : ∀ a rest h h', settles rest →
      Repeats settles' more (f ⟨a, rest, h⟩) (g ⟨a, rest ++ more, h'⟩))
    (hi : ∀ a rest h, ¬ settles rest → Inert settles' (f ⟨a, rest, h⟩)) :
    Repeats settles' more (x >>= f) (y >>= g) := by
  cases x with
  | error failure =>
    constructor
    · intro failure' he hu
      cases he
      obtain ⟨failure', rfl, he⟩ := hx.complaint failure rfl hu
      exact ⟨failure', rfl, he⟩
    · intro b rest hr
      exact absurd hr not_reads_error
  | ok p =>
    obtain ⟨a, rest, h⟩ := p
    by_cases hs : settles rest
    · obtain ⟨h', rfl⟩ := hx.reading a rest ⟨h, rfl⟩ hs
      exact hf a rest h h' hs
    · exact (hi a rest h hs).repeats

theorem Inert.bind {f : Parsed α ts → Result β ts'} (hx : Inert settles x)
    (hi : ∀ a rest h, ¬ settles rest → Inert settles' (f ⟨a, rest, h⟩)) :
    Inert settles' (x >>= f) := by
  cases x with
  | error failure => exact inert_error (hx.complaint failure rfl)
  | ok p =>
    obtain ⟨a, rest, h⟩ := p
    exact hi a rest h (hx.reading a rest ⟨h, rfl⟩)

theorem Repeats.bind_always {f : Parsed α ts → Result β ts'} {g : Parsed α us → Result β us'}
    (hx : Repeats Always more x y)
    (hf : ∀ a rest h h', Repeats settles more (f ⟨a, rest, h⟩) (g ⟨a, rest ++ more, h'⟩)) :
    Repeats settles more (x >>= f) (y >>= g) :=
  hx.bind (fun a rest h h' _ => hf a rest h h') fun _ _ _ hn => absurd trivial hn

theorem Repeats.bind_stopped {f : Parsed α ts → Result β ts'} {g : Parsed α us → Result β us'}
    (hx : Repeats Stopped more x y)
    (hf : ∀ a rest h h', Repeats settles more (f ⟨a, rest, h⟩) (g ⟨a, rest ++ more, h'⟩))
    (hi : ∀ a h, Inert settles (f ⟨a, [], h⟩)) :
    Repeats settles more (x >>= f) (y >>= g) := by
  refine hx.bind (fun a rest h h' _ => hf a rest h h') ?_
  intro a rest h hn
  obtain rfl := Classical.not_not.mp hn
  exact hi a h

theorem Repeats.check {c c' : Except Failure Unit} {f : Unit → Result β ts'}
    {g : Unit → Result β us'}
    (hc : ∀ failure, c = .error failure →
      ∃ failure', c' = .error failure' ∧ failure'.error = failure.error)
    (hf : c = .ok () → c' = .ok () ∧ Repeats settles more (f ()) (g ())) :
    Repeats settles more (c >>= f) (c' >>= g) := by
  cases c with
  | error failure =>
    obtain ⟨⟨error, rest'⟩, rfl, rfl⟩ := hc failure rfl
    exact repeats_error
  | ok u =>
    obtain ⟨rfl, hrest⟩ := hf rfl
    exact hrest

end

/-! ### Single tokens -/

section

variable {ts : List Located} (more : List Located)

theorem repeats_expect (what : Expectation) (wanted : Token) :
    Repeats Always more (expect what wanted ts) (expect what wanted (ts ++ more)) := by
  cases ts with
  | nil => exact (inert_error rfl).repeats
  | cons u ts =>
    obtain ⟨t, line⟩ := u
    rw [expect, List.cons_append, expect]
    split
    · exact repeats_ok
    · exact repeats_error

theorem repeats_loopVariable :
    Repeats Always more (loopVariable ts) (loopVariable (ts ++ more)) := by
  cases ts with
  | nil => exact (inert_error rfl).repeats
  | cons u ts =>
    obtain ⟨t, line⟩ := u
    cases t with
    | identifier name => exact repeats_ok
    | _ => exact repeats_error

theorem repeats_closeParen (line : Nat) :
    Repeats Always more (closeParen line ts) (closeParen line (ts ++ more)) := by
  cases ts with
  | nil => exact (inert_error rfl).repeats
  | cons u ts =>
    obtain ⟨t, l⟩ := u
    cases t with
    | closeParen => exact repeats_ok
    | _ => exact repeats_error

end

/-! ### Expressions -/

theorem chain_nil (level : Level) : chain level [] = .error ⟨⟨.endOfInput, 0⟩, []⟩ := by
  cases level <;> simp [chain, operand, negation, signed, primary, bind, Except.bind]

theorem inert_extend_nil (level : Level) {ts : List Located} {left : Expr}
    {h : ([] : List Located).length < ts.length} :
    Inert Stopped (extend level ts left [] h) := by
  rw [extend]
  exact inert_ok fun hs => hs rfl

/-- The input is over, or over after a name. More of it can make an assignment. -/
def EndsAtName (ts : List Located) : Prop := ts = [] ∨ ∃ name line, ts = [⟨.identifier name, line⟩]

theorem inert_chain_of_endsAtName {ts : List Located} (h : EndsAtName ts) :
    Inert Stopped (chain .disjunction ts) := by
  rcases h with rfl | ⟨name, line, rfl⟩
  · rw [chain_nil]
    exact inert_error rfl
  · have hvar : Grammar.Expression .disjunction [⟨.identifier name, line⟩] (.var name line) :=
      Grammar.Expression.var.of_primary _
    have hr : Reads (chain .disjunction [⟨.identifier name, line⟩]) (.var name line) [] :=
      expression_complete hvar (by simp [Level.Stops])
    obtain ⟨h, he⟩ := hr
    rw [he]
    exact inert_ok fun hs => hs rfl

/-- What comes later cannot change what the second token is, unless the input ended before. -/
theorem eq_cons_cons_of_append {ts more after : List Located} {name : String} {line : Nat}
    {u : Located} (hts : ¬ EndsAtName ts)
    (h : ts ++ more = ⟨.identifier name, line⟩ :: u :: after) :
    ∃ rest, ts = ⟨.identifier name, line⟩ :: u :: rest := by
  match ts with
  | [] => exact absurd (.inl rfl) hts
  | [v] =>
    cases h
    exact absurd (.inr ⟨name, line, rfl⟩) hts
  | v :: w :: ts =>
    cases h
    exact ⟨ts, rfl⟩

/-- A chain may go on with an operator, so it takes a token to stop it. What ends with a literal, a
name or a parenthesis is over without one. -/
theorem expressions_repeat (more : List Located) :
    (∀ level ts, Repeats Stopped more (chain level ts) (chain level (ts ++ more))) ∧
    (∀ level ts left rest h ts' h',
      Repeats Stopped more (extend level ts left rest h)
        (extend level ts' left (rest ++ more) h')) ∧
    (∀ level ts, Repeats Stopped more (operand level ts) (operand level (ts ++ more))) ∧
    (∀ ts, Repeats Always more (signed ts) (signed (ts ++ more))) ∧
    (∀ ts, Repeats Always more (primary ts) (primary (ts ++ more))) ∧
    (∀ line ts, Repeats Always more (grouping line ts) (grouping line (ts ++ more))) ∧
    (∀ ts, Repeats Stopped more (negation ts) (negation (ts ++ more))) := by
  apply chain.mutual_induct
  case case1 =>
    intro level ts ho he
    rw [chain, chain]
    exact ho.bind_stopped (fun left rest h h' => he left rest h _ h')
      fun _ _ => inert_extend_nil level
  case case2 =>
    intro level ts left h _ ts' h'
    exact (inert_extend_nil level).repeats
  case case3 =>
    intro level ts left t line after h hj _ ts' h'
    simp only [List.cons_append, extend, hj]
    exact repeats_ok
  case case4 =>
    intro level ts left t line after h join hj _ ho he ts' h'
    simp only [List.cons_append, extend, hj]
    exact ho.bind_stopped (fun right rest h _ => he right rest h _ _)
      fun _ _ => inert_extend_nil level
  case case5 | case6 | case7 | case8 =>
    intro ts ih
    rw [operand, operand]
    exact ih
  case case9 =>
    intro ts ih
    rw [operand, operand]
    exact ih.mono fun _ _ => trivial
  case case10 =>
    intro line ts ih
    rw [List.cons_append, signed, signed]
    exact ih.bind_always fun _ _ _ _ => repeats_ok
  case case11 =>
    intro ts hts ih
    cases ts with
    | nil =>
      rw [signed.eq_2 [] hts, primary]
      exact (inert_error rfl).repeats
    | cons u ts =>
      rw [signed.eq_2 _ hts, signed.eq_2]
      · exact ih
      · intro line rest heq
        cases heq
        exact hts line ts rfl
  case case12 =>
    rw [primary]
    exact (inert_error rfl).repeats
  case case13 | case14 | case15 =>
    intro a line ts
    rw [List.cons_append, primary, primary]
    exact repeats_ok
  case case16 =>
    intro line ts ih
    rw [List.cons_append, primary, primary]
    exact ih.bind_always fun _ _ _ _ => repeats_ok
  case case17 =>
    intro t line ts hi hb hn ho
    rw [List.cons_append, primary, primary]
    · exact repeats_error
    all_goals assumption
  case case18 =>
    intro line name l₁ l₂ ts ih
    rw [List.cons_append, List.cons_append, grouping, grouping]
    refine ih.bind_stopped (fun _ _ _ _ => ?_) fun _ _ => inert_error rfl
    exact (repeats_closeParen more line).bind_always fun _ _ _ _ => repeats_ok
  case case19 =>
    intro line ts hts ih
    by_cases hend : EndsAtName ts
    · rw [grouping.eq_2 line ts hts]
      refine ((inert_chain_of_endsAtName hend).bind ?_).repeats
      intro e rest h hn
      obtain rfl := Classical.not_not.mp hn
      exact inert_error rfl
    · rw [grouping.eq_2 line ts hts, grouping.eq_2 line (ts ++ more)]
      · refine ih.bind_stopped (fun _ _ _ _ => ?_) fun _ _ => inert_error rfl
        exact (repeats_closeParen more line).bind_always fun _ _ _ _ => repeats_ok
      · intro name l₁ l₂ after heq
        obtain ⟨rest, rfl⟩ := eq_cons_cons_of_append hend heq
        exact hts name l₁ l₂ rest rfl
  case case20 =>
    intro line ts ih
    rw [List.cons_append, negation, negation]
    exact ih.bind (fun _ _ _ _ _ => repeats_ok) fun _ _ _ hn => inert_ok hn
  case case21 =>
    intro ts hts ih
    cases ts with
    | nil =>
      rw [negation.eq_2 [] hts, chain_nil]
      exact (inert_error rfl).repeats
    | cons u ts =>
      rw [negation.eq_2 _ hts, negation.eq_2]
      · exact ih
      · intro line rest heq
        cases heq
        exact hts line ts rfl

/-! ### Statements -/

section

variable {ts rest : List Located} (more : List Located)

theorem expression_repeats :
    Repeats Stopped more (expression ts) (expression (ts ++ more)) :=
  (expressions_repeat more).1 .disjunction ts

theorem skipSeparators_append_of_cons {u : Located} {after : List Located}
    (h : skipSeparators ts = u :: after) : skipSeparators (ts ++ more) = u :: (after ++ more) := by
  unfold skipSeparators at h ⊢
  rw [List.dropWhile_append, h]
  rfl

theorem afterElse?_append_of_some {after : List Located} (h : afterElse? ts = some after) :
    afterElse? (ts ++ more) = some (after ++ more) := by
  obtain ⟨breaks, line, rfl, hb⟩ := breaks_of_afterElse? h
  rw [List.append_assoc, afterElse?_breaks hb, List.cons_append, afterElse?]

theorem afterElse?_append_of_none (h : afterElse? ts = none) (hs : Settled ts) :
    afterElse? (ts ++ more) = none := by
  fun_induction afterElse? ts with
  | case1 line ts ih =>
    obtain ⟨u, hu, hne⟩ := hs
    rcases List.mem_cons.mp hu with rfl | hu
    · exact absurd rfl hne
    · exact ih h ⟨u, hu, hne⟩
  | case2 line ts => cases h
  | case3 ts hnewline helse =>
    obtain ⟨u, ts, rfl⟩ := List.exists_cons_of_ne_nil hs.stopped
    rw [List.cons_append, afterElse?.eq_3]
    · intro line after heq
      cases heq
      exact hnewline line ts rfl
    · intro line after heq
      cases heq
      exact helse line ts rfl

/-- Looking ahead for an `else` gives the same answer where something other than a line break is in
sight. -/
theorem repeats_lookahead {β : Type} {us us' : List Located} {settles : List Located → Prop}
    {x : Result β us} {y : Result β us'}
    {f : ∀ after, afterElse? rest = some after → Result β us}
    {g : ∀ after, afterElse? (rest ++ more) = some after → Result β us'}
    (hx : Repeats settles more x y) (hi : ¬ Settled rest → Inert settles x)
    (hf : ∀ after h h', Repeats settles more (f after h) (g (after ++ more) h')) :
    Repeats settles more
      (match h : afterElse? rest with
        | none => x
        | some after => f after h)
      (match h : afterElse? (rest ++ more) with
        | none => y
        | some after => g after h) := by
  split
  · next hnone =>
    by_cases hs : Settled rest
    · have hmore := afterElse?_append_of_none more hnone hs
      split
      · exact hx
      · next after hsome => cases hmore.symm.trans hsome
    · exact (hi hs).repeats
  · next after hsome =>
    have hmore := afterElse?_append_of_some more hsome
    split
    · next hnone => cases hmore.symm.trans hnone
    · next after' hsome' =>
      cases hmore.symm.trans hsome'
      exact hf after hsome hsome'

theorem newline_of_not_settled (h : ¬ Settled rest) : ∀ u ∈ rest, u.token = .newline := by
  intro u hu
  exact Classical.byContradiction fun hne => h ⟨u, hu, hne⟩

theorem skipSeparators_of_not_settled (h : ¬ Settled rest) : skipSeparators rest = [] := by
  have hs : Grammar.Separators rest := fun u hu => .inl (newline_of_not_settled h u hu)
  have hskip : skipSeparators (rest ++ []) = skipSeparators [] := skipSeparators_append hs
  rwa [List.append_nil] at hskip

theorem endStatement_of_not_settled {inBlock : Bool} (h : ¬ Settled rest) :
    endStatement inBlock rest = .ok () := by
  apply endStatement_eq_ok_iff.mpr
  intro u hu
  exact .inl (.inl (newline_of_not_settled h u (List.mem_of_mem_head? hu)))

theorem endStatement_append_eq_ok {inBlock : Bool} (hs : Stopped rest)
    (h : endStatement inBlock rest = .ok ()) : endStatement inBlock (rest ++ more) = .ok () := by
  obtain ⟨u, rest, rfl⟩ := List.exists_cons_of_ne_nil hs
  rw [endStatement_eq_ok_iff] at h ⊢
  exact h

theorem endStatement_append_eq_error {inBlock : Bool} {failure : Failure} (hs : Stopped rest)
    (h : endStatement inBlock rest = .error failure) :
    ∃ failure', endStatement inBlock (rest ++ more) = .error failure' ∧
      failure'.error = failure.error := by
  obtain ⟨⟨t, line⟩, rest, rfl⟩ := List.exists_cons_of_ne_nil hs
  rw [endStatement] at h
  rw [List.cons_append, endStatement]
  split at h
  · cases h
  · next hsep =>
    cases h
    exact ⟨_, if_neg hsep, rfl⟩

theorem blockBody_of_skipSeparators_nil {line : Nat} (h : skipSeparators ts = []) :
    blockBody line ts = .error ⟨⟨.unclosedBlock, line⟩, []⟩ := by
  rw [blockBody]
  split <;> simp_all

theorem blockBody_of_closeBrace {line l : Nat}
    (h : skipSeparators ts = ⟨.closeBrace, l⟩ :: rest) :
    blockBody line ts = .ok ⟨[], rest, length_of_skipSeparators h⟩ := by
  rw [blockBody]
  split
  · next h' => cases h.symm.trans h'
  · next l' rest' h' =>
    cases h.symm.trans h'
    rfl
  · next u after hu h' =>
    cases h.symm.trans h'
    exact absurd rfl (hu l)

theorem blockBody_of_statement {line : Nat} {u : Located} {after : List Located}
    (h : skipSeparators ts = u :: after) (hu : ∀ l, u ≠ ⟨.closeBrace, l⟩) :
    blockBody line ts = (do
      let first ← statement (u :: after)
      endStatement true first.rest
      let others ← blockBody line first.rest
      return ⟨first.value :: others.value, others.rest,
        Nat.lt_trans others.shorter (Nat.lt_of_lt_of_le first.shorter
          (length_of_skipSeparators h))⟩) := by
  rw [blockBody]
  split
  · next h' => cases h.symm.trans h'
  · next l rest h' =>
    cases h.symm.trans h'
    exact absurd rfl (hu l)
  · next u' after' _ h' =>
    cases h.symm.trans h'
    rfl

theorem inert_block_nil {β : Type} {f : Parsed Expr [] → Result β ts} :
    Inert Always (block [] >>= f) := by
  rw [block]
  exact inert_error rfl

/-- Loops and blocks end with a brace. A conditional may still get an `else` after line breaks, but
where only these are left nothing can be wrong any more. -/
theorem statements_repeat :
    (∀ ts, Repeats Settled more (statement ts) (statement (ts ++ more))) ∧
    (∀ ts, Repeats Always more (forLoop ts) (forLoop (ts ++ more))) ∧
    (∀ ts, Repeats Always more (block ts) (block (ts ++ more))) ∧
    (∀ line ts, Repeats Always more (blockBody line ts) (blockBody line (ts ++ more))) ∧
    (∀ ts, Repeats Always more (whileLoop ts) (whileLoop (ts ++ more))) ∧
    (∀ ts, Repeats Settled more (conditional ts) (conditional (ts ++ more))) := by
  apply statement.mutual_induct
  case case1 =>
    intro line ts ih
    rw [List.cons_append, statement, statement]
    exact ih
  case case2 | case3 =>
    intro line ts ih
    rw [List.cons_append, statement, statement]
    exact ih.mono fun _ _ => trivial
  case case4 =>
    intro name line l₁ ts
    rw [List.cons_append, List.cons_append, statement, statement]
    exact (expression_repeats more).bind (fun _ _ _ _ _ => repeats_ok)
      fun _ _ _ hn => inert_ok fun hs => hn hs.stopped
  case case5 =>
    intro name line op l₁ ts
    rw [List.cons_append, List.cons_append, statement, statement]
    exact (expression_repeats more).bind (fun _ _ _ _ _ => repeats_ok)
      fun _ _ _ hn => inert_ok fun hs => hn hs.stopped
  case case6 =>
    intro ts hif hwhile hfor hassign hupdate
    rw [statement.eq_6 ts hif hwhile hfor hassign hupdate]
    by_cases hend : EndsAtName ts
    · exact ((inert_chain_of_endsAtName hend).mono fun _ hs => hs.stopped).repeats
    · obtain ⟨u, ts, rfl⟩ := List.exists_cons_of_ne_nil fun h => hend (.inl h)
      rw [statement.eq_6]
      · exact (expression_repeats more).mono fun _ hs => hs.stopped
      · intro line after heq
        cases heq
        exact hif line ts rfl
      · intro line after heq
        cases heq
        exact hwhile line ts rfl
      · intro line after heq
        cases heq
        exact hfor line ts rfl
      · intro name l₁ l₂ after heq
        obtain ⟨rest, hrest⟩ := eq_cons_cons_of_append hend heq
        exact hassign name l₁ l₂ rest hrest
      · intro name l₁ op l₂ after heq
        obtain ⟨rest, hrest⟩ := eq_cons_cons_of_append hend heq
        exact hupdate name l₁ op l₂ rest hrest
  case case7 =>
    intro ts ih
    rw [forLoop, forLoop]
    refine (repeats_expect more _ _).bind_always fun line r₁ h₁ _ => ?_
    refine (repeats_loopVariable more).bind_always fun counter r₂ h₂ _ => ?_
    refine (repeats_expect more _ _).bind_always fun _ r₃ h₃ _ => ?_
    refine (expression_repeats more).bind_stopped (fun first r₄ h₄ _ => ?_)
      fun _ _ => inert_error rfl
    refine (repeats_expect more _ _).bind_always fun _ r₅ h₅ _ => ?_
    refine (expression_repeats more).bind_stopped (fun last r₆ h₆ _ => ?_)
      fun _ _ => inert_block_nil
    exact (ih r₁ h₁ r₂ h₂ r₃ h₃ r₄ h₄ r₅ h₅ r₆ h₆).bind_always fun _ _ _ _ => repeats_ok
  case case8 =>
    intro ts ih
    rw [block, block]
    refine (repeats_expect more _ _).bind_always fun line r₁ h₁ _ => ?_
    exact (ih line r₁ h₁).bind_always fun _ _ _ _ => repeats_ok
  case case9 =>
    intro line ts hts
    rw [blockBody_of_skipSeparators_nil hts]
    exact (inert_error rfl).repeats
  case case10 =>
    intro line ts l rest hts
    rw [blockBody_of_closeBrace hts,
      blockBody_of_closeBrace (skipSeparators_append_of_cons more hts)]
    exact repeats_ok
  case case11 =>
    intro line ts t after hne hts _ ihs ihb
    rw [blockBody_of_statement hts hne,
      blockBody_of_statement (skipSeparators_append_of_cons more hts) hne]
    refine ihs.bind (fun first rest h _ hs => ?_) fun first rest h hn => ?_
    · refine Repeats.check (fun _ => endStatement_append_eq_error more hs.stopped) fun hend => ?_
      refine ⟨endStatement_append_eq_ok more hs.stopped hend, ?_⟩
      exact (ihb rest h).bind_always fun _ _ _ _ => repeats_ok
    · simp only [endStatement_of_not_settled hn,
        blockBody_of_skipSeparators_nil (skipSeparators_of_not_settled hn)]
      exact inert_error rfl
  case case12 =>
    intro ts ih
    rw [whileLoop, whileLoop]
    refine (repeats_expect more _ _).bind_always fun line r₁ h₁ _ => ?_
    refine (expression_repeats more).bind_stopped (fun condition r₂ h₂ _ => ?_)
      fun _ _ => inert_block_nil
    exact (ih r₁ h₁ r₂ h₂).bind_always fun _ _ _ _ => repeats_ok
  case case13 =>
    intro ts ihthen ihif ihelse
    rw [conditional, conditional]
    refine (repeats_expect more _ _).bind_always fun line r₁ h₁ _ => ?_
    refine (expression_repeats more).bind_stopped (fun condition r₂ h₂ _ => ?_)
      fun _ _ => inert_block_nil.mono fun _ _ => trivial
    refine (ihthen r₁ h₁ r₂ h₂).bind_always fun thenBranch r₃ h₃ _ => ?_
    refine repeats_lookahead more repeats_ok (fun hn => inert_ok hn) ?_
    intro r₄ h₄ _
    have hr₄ := length_of_afterElse? h₄
    cases r₄ with
    | nil => exact (inert_error rfl).repeats
    | cons u after =>
      obtain ⟨t, l⟩ := u
      cases t with
      | keyword word =>
        cases word with
        | ifWord =>
          exact (ihif r₁ h₁ r₂ h₂ r₃ h₃ l after hr₄).bind (fun _ _ _ _ _ => repeats_ok)
            fun _ _ _ hn => inert_ok hn
        | _ => exact repeats_error
      | openBrace =>
        exact (ihelse r₁ h₁ r₂ h₂ r₃ h₃ l after hr₄).bind_always fun _ _ _ _ => repeats_ok
      | _ => exact repeats_error

/-- A program that is wrong at some token stays wrong there, whatever follows. -/
theorem program_repeats {failure : Failure} (h : program ts = .error failure)
    (hu : failure.error.cause.isUnexpected = true) :
    ∃ failure', program (ts ++ more) = .error failure' ∧ failure'.error = failure.error := by
  induction ts using program.induct with
  | case1 ts hts => exact absurd rfl ((program_eq_error_iff hts).mp h).1
  | case2 ts u after hts _ ih =>
    have hstatement := (statements_repeat more).1 (u :: after)
    have hmore := skipSeparators_append_of_cons more hts
    obtain ⟨-, h | ⟨first, rest, hr, h⟩⟩ := (program_eq_error_iff hts).mp h
    · obtain ⟨failure', hf, he⟩ := hstatement.complaint failure h hu
      exact ⟨failure', (program_eq_error_iff hmore).mpr ⟨List.cons_ne_nil _ _, .inl hf⟩, he⟩
    · by_cases hs : Settled rest
      · have hr' := hstatement.reading first rest hr hs
        rcases h with h | ⟨hend, h⟩
        · obtain ⟨failure', hf, he⟩ := endStatement_append_eq_error more hs.stopped h
          exact ⟨failure', (program_eq_error_iff hmore).mpr
            ⟨List.cons_ne_nil _ _, .inr ⟨first, _, hr', .inl hf⟩⟩, he⟩
        · have hend' := endStatement_append_eq_ok more hs.stopped hend
          obtain ⟨failure', hf, he⟩ := ih rest hr.shorter h
          exact ⟨failure', (program_eq_error_iff hmore).mpr
            ⟨List.cons_ne_nil _ _, .inr ⟨first, _, hr', .inr ⟨hend', hf⟩⟩⟩, he⟩
      · rcases h with h | ⟨-, h⟩
        · rw [endStatement_of_not_settled hs] at h
          cases h
        · exact absurd (skipSeparators_of_not_settled hs) ((program_eq_error_iff rfl).mp h).1

end

end Parser

end BoundedScript
