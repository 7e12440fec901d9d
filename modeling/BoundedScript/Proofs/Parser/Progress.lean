import BoundedScript.Proofs.Parser.Stability

/-!
# Parsers go forward

A parser takes tokens off the front, so what it leaves is the end of its input, after a failure as
well as after a success. A success takes at least one token, which is why the loops over statements
come to an end. How far an expression reaches is settled by the one token behind it: as long as that
is no binary operator, the same tokens make the same tree.
-/

namespace BoundedScript

/-- Operators that stand between two operands: `or`, `and`, the comparisons, `+` and `-`, and what
stands on the level of products. -/
def Token.isBinaryOperator : Token → Bool
  | logical _ | comparison _ | arithmetic _ => true
  | _ => false

namespace Parser

section

variable {α β : Type} {input ts us : List Located}

/-- Whatever `x` leaves is the end of `input`. -/
structure Leaves (input : List Located) (x : Result α ts) : Prop where
  reading : ∀ a rest, Reads x a rest → rest <:+ input
  failure : ∀ failure, x = .error failure → failure.rest <:+ input

/-- A parser for `ts` leaves the end of it, without the first token if it succeeds. -/
structure Advances (x : Result α ts) : Prop where
  reading : ∀ a rest, Reads x a rest → ∃ taken, taken ≠ [] ∧ ts = taken ++ rest
  failure : ∀ failure, x = .error failure → ∃ taken, ts = taken ++ failure.rest

variable {x : Result α ts}

theorem Leaves.advances (h : Leaves ts x) : Advances x where
  reading a rest hx := by
    obtain ⟨taken, rfl⟩ := h.reading a rest hx
    refine ⟨taken, ?_, rfl⟩
    rintro rfl
    exact absurd hx.shorter (Nat.lt_irrefl _)
  failure failure hx := by
    obtain ⟨taken, rfl⟩ := h.failure failure hx
    exact ⟨taken, rfl⟩

theorem Leaves.mono (h : Leaves input x) (hsuffix : input <:+ us) : Leaves us x where
  reading a rest hx := (h.reading a rest hx).trans hsuffix
  failure failure hx := (h.failure failure hx).trans hsuffix

theorem Leaves.cons (h : Leaves input x) (u : Located) : Leaves (u :: input) x :=
  h.mono (List.suffix_cons u input)

theorem leaves_ok {p : Parsed α ts} (h : p.rest <:+ input) :
    Leaves input (.ok p : Result α ts) where
  reading a rest hx := (reads_ok.mp hx).2 ▸ h
  failure failure hx := by cases hx

theorem leaves_error {failure : Failure} (h : failure.rest <:+ input) :
    Leaves input (.error failure : Result α ts) where
  reading a rest hx := absurd hx not_reads_error
  failure failure' hx := by
    cases hx
    exact h

/-- What a second parser leaves is the end of what the first one left. -/
theorem Leaves.bind {f : Parsed α ts → Result β us} (hx : Leaves input x)
    (hf : ∀ a rest h, Leaves rest (f ⟨a, rest, h⟩)) : Leaves input (x >>= f) := by
  cases x with
  | error failure => exact leaves_error (hx.failure failure rfl)
  | ok p => exact (hf p.value p.rest p.shorter).mono (hx.reading p.value p.rest ⟨p.shorter, rfl⟩)

theorem Leaves.check {c : Except Failure Unit} {f : Unit → Result β us}
    (hc : ∀ failure, c = .error failure → failure.rest <:+ input) (hf : Leaves input (f ())) :
    Leaves input (c >>= f) := by
  cases c with
  | error failure => exact leaves_error (hc failure rfl)
  | ok u => exact hf

end

/-! ### Single tokens -/

section

variable (ts : List Located)

theorem leaves_expect (what : Expectation) (wanted : Token) :
    Leaves ts (expect what wanted ts) := by
  cases ts with
  | nil => exact leaves_error List.suffix_rfl
  | cons u ts =>
    rw [expect]
    split
    · exact leaves_ok (List.suffix_cons u ts)
    · exact leaves_error (List.suffix_cons u ts)

theorem leaves_loopVariable : Leaves ts (loopVariable ts) := by
  unfold loopVariable
  split
  · exact leaves_error List.suffix_rfl
  · exact leaves_ok (List.suffix_cons ..)
  · exact leaves_error (List.suffix_cons ..)

theorem leaves_closeParen (line : Nat) : Leaves ts (closeParen line ts) := by
  unfold closeParen
  split
  · exact leaves_ok (List.suffix_cons ..)
  · exact leaves_error (List.tail_suffix ts)

theorem suffix_of_endStatement {inBlock : Bool} {failure : Failure}
    (h : endStatement inBlock ts = .error failure) : failure.rest <:+ ts := by
  unfold endStatement at h
  split at h
  · cases h
  · split at h
    · cases h
    · cases h
      exact List.suffix_rfl

theorem suffix_of_afterElse? {after : List Located} (h : afterElse? ts = some after) :
    after <:+ ts := by
  obtain ⟨breaks, line, rfl, -⟩ := breaks_of_afterElse? h
  exact ⟨breaks ++ [⟨.keyword .elseWord, line⟩], by simp⟩

end

/-! ### Expressions -/

theorem expressions_leave :
    (∀ level ts, Leaves ts (chain level ts)) ∧
    (∀ level ts left rest h, Leaves rest (extend level ts left rest h)) ∧
    (∀ level ts, Leaves ts (operand level ts)) ∧
    (∀ ts, Leaves ts (signed ts)) ∧
    (∀ ts, Leaves ts (primary ts)) ∧
    (∀ line ts, Leaves ts (grouping line ts)) ∧
    (∀ ts, Leaves ts (negation ts)) := by
  apply chain.mutual_induct
  case case1 =>
    intro level ts ho he
    rw [chain]
    exact ho.bind fun left rest h => he left rest h
  case case2 =>
    intro level ts left h _
    rw [extend]
    exact leaves_ok List.suffix_rfl
  case case3 =>
    intro level ts left t line after h hj _
    simp only [extend, hj]
    exact leaves_ok List.suffix_rfl
  case case4 =>
    intro level ts left t line after h join hj _ ho he
    simp only [extend, hj]
    apply Leaves.cons
    exact ho.bind fun right rest h' => he right rest h'
  case case5 | case6 | case7 | case8 | case9 =>
    intro ts ih
    rw [operand]
    exact ih
  case case10 =>
    intro line ts ih
    rw [signed]
    apply Leaves.cons
    exact ih.bind fun _ _ _ => leaves_ok List.suffix_rfl
  case case11 =>
    intro ts hts ih
    rw [signed.eq_2 ts hts]
    exact ih
  case case12 =>
    rw [primary]
    exact leaves_error List.suffix_rfl
  case case13 | case14 | case15 =>
    intro a line ts
    rw [primary]
    exact leaves_ok (List.suffix_cons ..)
  case case16 =>
    intro line ts ih
    rw [primary]
    apply Leaves.cons
    exact ih.bind fun _ _ _ => leaves_ok List.suffix_rfl
  case case17 =>
    intro t line ts hi hb hn ho
    rw [primary]
    · exact leaves_error (List.suffix_cons ..)
    all_goals assumption
  case case18 =>
    intro line name l₁ l₂ ts ih
    rw [grouping]
    apply Leaves.cons
    apply Leaves.cons
    refine ih.bind fun value rest h => ?_
    exact (leaves_closeParen rest line).bind fun _ _ _ => leaves_ok List.suffix_rfl
  case case19 =>
    intro line ts hts ih
    rw [grouping.eq_2 line ts hts]
    refine ih.bind fun e rest h => ?_
    exact (leaves_closeParen rest line).bind fun _ _ _ => leaves_ok List.suffix_rfl
  case case20 =>
    intro line ts ih
    rw [negation]
    apply Leaves.cons
    exact ih.bind fun _ _ _ => leaves_ok List.suffix_rfl
  case case21 =>
    intro ts hts ih
    rw [negation.eq_2 ts hts]
    exact ih

theorem leaves_expression (ts : List Located) : Leaves ts (expression ts) :=
  expressions_leave.1 .disjunction ts

/-! ### Statements -/

theorem suffix_of_skipSeparators {ts us : List Located} (h : skipSeparators ts = us) :
    us <:+ ts := by
  rw [← h]
  exact List.dropWhile_suffix _

/-- Looking ahead for an `else` takes nothing if there is none. -/
theorem leaves_lookahead {β : Type} {us rest : List Located} {x : Result β us}
    {f : ∀ after, afterElse? rest = some after → Result β us} (hx : Leaves rest x)
    (hf : ∀ after h, Leaves after (f after h)) :
    Leaves rest
      (match h : afterElse? rest with
        | none => x
        | some after => f after h) := by
  split
  · exact hx
  · next after h => exact (hf after h).mono (suffix_of_afterElse? rest h)

theorem statements_leave :
    (∀ ts, Leaves ts (statement ts)) ∧
    (∀ ts, Leaves ts (forLoop ts)) ∧
    (∀ ts, Leaves ts (block ts)) ∧
    (∀ line ts, Leaves ts (blockBody line ts)) ∧
    (∀ ts, Leaves ts (whileLoop ts)) ∧
    (∀ ts, Leaves ts (conditional ts)) := by
  apply statement.mutual_induct
  case case1 | case2 | case3 =>
    intro line ts ih
    rw [statement]
    exact ih
  case case4 =>
    intro name line l₁ ts
    rw [statement]
    apply Leaves.cons
    apply Leaves.cons
    exact (leaves_expression ts).bind fun _ _ _ => leaves_ok List.suffix_rfl
  case case5 =>
    intro name line op l₁ ts
    rw [statement]
    apply Leaves.cons
    apply Leaves.cons
    exact (leaves_expression ts).bind fun _ _ _ => leaves_ok List.suffix_rfl
  case case6 =>
    intro ts hif hwhile hfor hassign hupdate
    rw [statement.eq_6 ts hif hwhile hfor hassign hupdate]
    exact leaves_expression ts
  case case7 =>
    intro ts ih
    rw [forLoop]
    refine (leaves_expect ts _ _).bind fun line r₁ h₁ => ?_
    refine (leaves_loopVariable r₁).bind fun counter r₂ h₂ => ?_
    refine (leaves_expect r₂ _ _).bind fun _ r₃ h₃ => ?_
    refine (leaves_expression r₃).bind fun first r₄ h₄ => ?_
    refine (leaves_expect r₄ _ _).bind fun _ r₅ h₅ => ?_
    refine (leaves_expression r₅).bind fun last r₆ h₆ => ?_
    exact (ih r₁ h₁ r₂ h₂ r₃ h₃ r₄ h₄ r₅ h₅ r₆ h₆).bind fun _ _ _ => leaves_ok List.suffix_rfl
  case case8 =>
    intro ts ih
    rw [block]
    refine (leaves_expect ts _ _).bind fun line r₁ h₁ => ?_
    exact (ih line r₁ h₁).bind fun _ _ _ => leaves_ok List.suffix_rfl
  case case9 =>
    intro line ts hts
    rw [blockBody_of_skipSeparators_nil hts]
    exact leaves_error List.nil_suffix
  case case10 =>
    intro line ts l rest hts
    rw [blockBody_of_closeBrace hts]
    exact leaves_ok ((List.suffix_cons ..).trans (suffix_of_skipSeparators hts))
  case case11 =>
    intro line ts t after hne hts _ ihs ihb
    rw [blockBody_of_statement hts hne]
    refine Leaves.mono ?_ (suffix_of_skipSeparators hts)
    refine ihs.bind fun first rest h => ?_
    refine Leaves.check (fun _ => suffix_of_endStatement rest) ?_
    exact (ihb rest h).bind fun _ _ _ => leaves_ok List.suffix_rfl
  case case12 =>
    intro ts ih
    rw [whileLoop]
    refine (leaves_expect ts _ _).bind fun line r₁ h₁ => ?_
    refine (leaves_expression r₁).bind fun condition r₂ h₂ => ?_
    exact (ih r₁ h₁ r₂ h₂).bind fun _ _ _ => leaves_ok List.suffix_rfl
  case case13 =>
    intro ts ihthen ihif ihelse
    rw [conditional]
    refine (leaves_expect ts _ _).bind fun line r₁ h₁ => ?_
    refine (leaves_expression r₁).bind fun condition r₂ h₂ => ?_
    refine (ihthen r₁ h₁ r₂ h₂).bind fun thenBranch r₃ h₃ => ?_
    refine leaves_lookahead (leaves_ok List.suffix_rfl) fun r₄ h₄ => ?_
    have hr₄ := length_of_afterElse? h₄
    cases r₄ with
    | nil => exact leaves_error List.suffix_rfl
    | cons u after =>
      obtain ⟨t, l⟩ := u
      cases t with
      | keyword word =>
        cases word with
        | ifWord =>
          exact (ihif r₁ h₁ r₂ h₂ r₃ h₃ l after hr₄).bind fun _ _ _ => leaves_ok List.suffix_rfl
        | _ => exact leaves_error List.suffix_rfl
      | openBrace =>
        exact (ihelse r₁ h₁ r₂ h₂ r₃ h₃ l after hr₄).bind fun _ _ _ => leaves_ok List.suffix_rfl
      | _ => exact leaves_error List.suffix_rfl

/-! ### Loops and what they stop at -/

/-- One turn of a loop over statements: separators are skipped, and a statement is read. -/
def Turn (ts rest : List Located) : Prop := ∃ e, Reads (statement (skipSeparators ts)) e rest

theorem Turn.shorter {ts rest : List Located} (h : Turn ts rest) : rest.length < ts.length := by
  obtain ⟨e, he⟩ := h
  exact Nat.lt_of_lt_of_le he.shorter (suffix_of_skipSeparators rfl).length_le

theorem turns_end : WellFounded fun rest ts => Turn ts rest :=
  Subrelation.wf Turn.shorter (measure List.length).wf

theorem stops_of_not_isBinaryOperator {rest : List Located}
    (h : ∀ u ∈ rest.head?, u.token.isBinaryOperator = false) (level : Level) :
    level.Stops rest := by
  intro u hu
  have hu := h u hu
  unfold Level.join?
  split <;> simp_all [Token.isBinaryOperator]

/-- The tokens of an expression make the same tree in front of any token that does not join it to
another operand. -/
theorem expression_before_other_rest {taken rest rest' : List Located} {e : Expr}
    (h : Reads (expression (taken ++ rest)) e rest)
    (hrest : ∀ u ∈ rest'.head?, u.token.isBinaryOperator = false) :
    Reads (expression (taken ++ rest')) e rest' := by
  obtain ⟨us, heq, hus⟩ := expression_sound h
  obtain rfl := List.append_cancel_right heq
  exact expression_complete hus (stops_of_not_isBinaryOperator hrest)

/-- Every parser leaves the end of its input, a shorter one if it succeeds, so loops over statements
come to an end. An expression is read alike in front of every rest that does not start with a binary
operator. -/
theorem parsers_go_forward :
    (∀ ts, Advances (expression ts) ∧ (∀ level, Advances (chain level ts)) ∧
      Advances (negation ts) ∧ Advances (statement ts) ∧ Advances (conditional ts) ∧
      Advances (whileLoop ts) ∧ Advances (forLoop ts) ∧ Advances (block ts) ∧
      ∀ line, Advances (blockBody line ts)) ∧
    (WellFounded fun rest ts => Turn ts rest) ∧
    ∀ taken rest rest' e, Reads (expression (taken ++ rest)) e rest →
      (∀ u ∈ rest'.head?, u.token.isBinaryOperator = false) →
        Reads (expression (taken ++ rest')) e rest' := by
  obtain ⟨hchain, -, -, -, -, -, hnegation⟩ := expressions_leave
  obtain ⟨hstatement, hfor, hblock, hbody, hwhile, hconditional⟩ := statements_leave
  refine ⟨?_, turns_end, fun _ _ _ _ => expression_before_other_rest⟩
  intro ts
  exact ⟨(leaves_expression ts).advances, fun level => (hchain level ts).advances,
    (hnegation ts).advances, (hstatement ts).advances, (hconditional ts).advances,
    (hwhile ts).advances, (hfor ts).advances, (hblock ts).advances,
    fun line => (hbody line ts).advances⟩

/-- `x + 1` in front of a closing parenthesis and, although no statement is like that, in front of a
sign that assigns. -/
theorem sum_is_read_before_assignment_sign :
    let taken : List Located := [⟨.identifier "x", 1⟩, ⟨.arithmetic .add, 1⟩,
      ⟨.integer ⟨1, by decide, by decide⟩, 2⟩]
    let rest : List Located := [⟨.closeParen, 2⟩]
    let rest' : List Located := [⟨.assign, 3⟩, ⟨.identifier "y", 3⟩]
    let e : Expr :=
      .arithmetic .add (.var "x" 1) (.literal (.integer ⟨1, by decide, by decide⟩) 2) 1
    Reads (expression (taken ++ rest)) e rest ∧
      (∀ u ∈ rest'.head?, u.token.isBinaryOperator = false) ∧
      Reads (expression (taken ++ rest')) e rest' := by
  intro taken rest rest' e
  have he : Grammar.Expression .disjunction taken e :=
    .of_comparison (.comparison (.of_operation .add .var .integer))
  have hreads : Reads (expression (taken ++ rest)) e rest :=
    expression_complete he (stops_delimiter (.inl rfl))
  have hrest : ∀ u ∈ rest'.head?, u.token.isBinaryOperator = false := by decide
  exact ⟨hreads, hrest, parsers_go_forward.2.2 taken rest rest' e hreads hrest⟩

end Parser

end BoundedScript
