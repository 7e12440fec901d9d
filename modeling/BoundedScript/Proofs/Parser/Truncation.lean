import BoundedScript.Proofs.Nesting
import BoundedScript.Proofs.Parser.Stability

/-!
# Input that is cut short

Where a parser runs out of tokens, some more tokens would have let it finish: whatever is half read
can be completed, and with it everything around it. The parser that runs out reports no line, so
that the line of the last token is filled in. Only after an `else` does it know better: there it
reports the line of the `if`.
-/

namespace BoundedScript

namespace ParseError

/-- The input ended before the program did. -/
def Cause.isTruncation : Cause → Bool
  | endOfInput | unclosedBlock => true
  | _ => false

variable {e : ParseError}

@[simp]
theorem locateEnd_cause (line : Nat) : (e.locateEnd line).cause = e.cause := by
  unfold locateEnd
  split
  · next h => rw [h]
  · rfl

theorem locateEnd_of_isUnexpected (h : e.cause.isUnexpected = true) (line : Nat) :
    e.locateEnd line = e := by
  apply if_neg
  rintro rfl
  cases h

theorem locateEnd_line_of_end (hc : e.cause = .endOfInput) (hl : e.line = 0) (line : Nat) :
    (e.locateEnd line).line = line := by
  obtain ⟨cause, l⟩ := e
  cases hc
  cases hl
  rfl

theorem locateEnd_line_of_pos (line : Nat) (h : 1 ≤ e.line) : (e.locateEnd line).line = e.line := by
  unfold locateEnd
  split
  · next he =>
    rw [he] at h
    cases h
  · rfl

end ParseError

namespace Parser

open Grammar

def NoElse (us : List Located) : Prop := ∀ u ∈ us, u.token ≠ .keyword .elseWord

@[simp]
theorem noElse_nil : NoElse [] := by simp [NoElse]

@[simp]
theorem noElse_cons {u : Located} {us : List Located} :
    NoElse (u :: us) ↔ u.token ≠ .keyword .elseWord ∧ NoElse us := by simp [NoElse]

@[simp]
theorem noElse_append {us vs : List Located} : NoElse (us ++ vs) ↔ NoElse us ∧ NoElse vs := by
  simp [NoElse, or_imp, forall_and]

/-- The line that is reported where the input ends: the line of an `if`, or none. -/
def EndsOnLine (ts : List Located) (line : Nat) : Prop :=
  (line = 0 ∧ ∀ u ∈ ts.getLast?, u.token ≠ .keyword .elseWord) ∨ AwaitsBranch ts line

section

variable {α β : Type} {p q : List Located → Prop} {ts us r : List Located}

/-- More tokens may follow to make up a phrase. -/
def Begins (p : List Located → Prop) (us : List Located) : Prop := ∃ vs, p (us ++ vs)

theorem Begins.of_append {vs : List Located} (h : Begins p (us ++ vs)) : Begins p us := by
  obtain ⟨ws, hws⟩ := h
  exact ⟨vs ++ ws, List.append_assoc us vs ws ▸ hws⟩

/-- If `x` fails because it runs out of the tokens `ts`, they are the beginning of a phrase, and the
line reported for the end of the input is the right one. -/
def Completable (p : List Located → Prop) (ts : List Located) (x : Except Failure α) : Prop :=
  ∀ failure, x = .error failure → failure.error.cause.isTruncation = true →
    Begins p ts ∧ (failure.error.cause = .endOfInput → EndsOnLine ts failure.error.line)

theorem completable_ok {a : α} : Completable p ts (.ok a) := by
  intro failure h
  cases h

theorem completable_error {failure : Failure} (h : failure.error.cause.isTruncation = false) :
    Completable p ts (.error failure : Except Failure α) := by
  intro failure' he ht
  cases he
  rw [h] at ht
  cases ht

theorem Completable.bind {x : Result α r} {f : Parsed α r → Except Failure β}
    (hx : Completable p ts x)
    (hf : ∀ a rest h, Reads x a rest → Completable p ts (f ⟨a, rest, h⟩)) :
    Completable p ts (x >>= f) := by
  intro failure he ht
  rcases bind_eq_error_iff.mp he with he | ⟨⟨a, rest, h⟩, hr, he⟩
  · exact hx failure he ht
  · exact hf a rest h ⟨h, hr⟩ failure he ht

theorem Completable.check {c : Except Failure Unit} {f : Unit → Except Failure β}
    (hc : Completable p ts c) (hf : c = .ok () → Completable p ts (f ())) :
    Completable p ts (c >>= f) := by
  intro failure he ht
  rcases bind_eq_error_iff.mp he with he | ⟨_, hok, he⟩
  · exact hc failure he ht
  · exact hf hok failure he ht

theorem EndsOnLine.prepend {line : Nat} (h : EndsOnLine r line) (hus : NoElse us ∨ r ≠ []) :
    EndsOnLine (us ++ r) line := by
  rcases h with ⟨hline, hlast⟩ | hawaits
  · refine .inl ⟨hline, ?_⟩
    intro u hu
    by_cases hr : r = []
    · subst hr
      rw [List.append_nil] at hu
      exact hus.resolve_right (fun h => h rfl) u (List.mem_of_getLast? hu)
    · have hr := List.getLast?_eq_some_getLast hr
      rw [List.getLast?_append, hr, Option.some_or, ← hr] at hu
      exact hlast u hu
  · exact .inr (hawaits.append_left us)

/-- What completes the end of the tokens completes all of them, with some more. -/
theorem Completable.prepend {x : Except Failure α} (us : List Located) (hx : Completable q r x)
    (hts : ts = us ++ r) (hus : NoElse us ∨ r ≠ [])
    (h : ∀ vs, q (r ++ vs) → Begins p (us ++ (r ++ vs))) : Completable p ts x := by
  intro failure he ht
  obtain ⟨⟨vs, hvs⟩, hline⟩ := hx failure he ht
  have hbegins : Begins p (us ++ r ++ vs) := List.append_assoc us r vs ▸ h vs hvs
  exact hts ▸ ⟨hbegins.of_append, fun hc => (hline hc).prepend hus⟩

theorem Completable.imp {x : Except Failure α} (hx : Completable q ts x) (h : ∀ us, q us → p us) :
    Completable p ts x := by
  intro failure he ht
  obtain ⟨⟨vs, hvs⟩, hline⟩ := hx failure he ht
  exact ⟨⟨vs, h _ hvs⟩, hline⟩

/-! ### Single tokens -/

theorem completable_end {failure : Failure} (hts : ts = us ++ []) (hus : NoElse us)
    (h : failure.error = ⟨.endOfInput, 0⟩) (hp : Begins p us) :
    Completable p ts (.error failure : Except Failure α) := by
  intro failure' he _
  cases he
  rw [hts, List.append_nil, h]
  exact ⟨hp, fun _ => .inl ⟨rfl, fun u hu => hus u (List.mem_of_getLast? hu)⟩⟩

theorem completable_unclosed {failure : Failure} (h : failure.error.cause = .unclosedBlock)
    (hp : Begins p ts) : Completable p ts (.error failure : Except Failure α) := by
  intro failure' he _
  cases he
  refine ⟨hp, ?_⟩
  intro hend
  cases h.symm.trans hend

theorem completable_expect {what : Expectation} {wanted : Token} (us : List Located)
    (hts : ts = us ++ r) (hus : NoElse us) (h : ∀ line, Begins p (us ++ [⟨wanted, line⟩])) :
    Completable p ts (expect what wanted r) := by
  unfold expect
  split
  · exact completable_end hts hus rfl (h 1).of_append
  · split
    · exact completable_ok
    · exact completable_error rfl

theorem completable_loopVariable (us : List Located) (hts : ts = us ++ r) (hus : NoElse us)
    (h : ∀ name line, Begins p (us ++ [⟨.identifier name, line⟩])) :
    Completable p ts (loopVariable r) := by
  unfold loopVariable
  split
  · exact completable_end hts hus rfl (h "x" 1).of_append
  · exact completable_ok
  · exact completable_error rfl

/-- A missing parenthesis is reported as such, at the end of the input too. -/
theorem completable_closeParen {line : Nat} : Completable p ts (closeParen line r) := by
  unfold closeParen
  split
  · exact completable_ok
  · exact completable_error rfl

theorem completable_endStatement {inBlock : Bool} : Completable p ts (endStatement inBlock r) := by
  unfold endStatement
  split
  · exact completable_ok
  · split
    · exact completable_ok
    · exact completable_error rfl

end

/-! ### Expressions -/

def IsExpression (c : Category) (us : List Located) : Prop := ∃ e, Expression c us e

theorem noElse_of_expression {c : Category} {us : List Located} {e : Expr}
    (h : Expression c us e) : NoElse us := by
  intro u hu helse
  have ht := h.inExpression u hu
  rw [helse] at ht
  cases ht

theorem Level.noElse_of_join {level : Level} {t : Token} {line : Nat}
    {join : Expr → Expr → Nat → Expr} (hj : level.join? t = some join) : NoElse [⟨t, line⟩] := by
  refine noElse_cons.mpr ⟨?_, noElse_nil⟩
  rintro rfl
  cases level <;> cases hj

theorem expressions_completable :
    (∀ level ts, Completable (IsExpression level.category) ts (chain level ts)) ∧
    (∀ level ts left r h us, ts = us ++ r → Expression level.category us left →
      Completable (IsExpression level.category) ts (extend level ts left r h)) ∧
    (∀ level ts, Completable (IsExpression level.operandCategory) ts (operand level ts)) ∧
    (∀ ts, Completable (IsExpression .signed) ts (signed ts)) ∧
    (∀ ts, Completable (IsExpression .primary) ts (primary ts)) ∧
    (∀ line ts, Completable (IsExpression .primary) (⟨.openParen, line⟩ :: ts)
      (grouping line ts)) ∧
    (∀ ts, Completable (IsExpression .negation) ts (negation ts)) := by
  apply chain.mutual_induct
  case case1 =>
    intro level ts ho he
    rw [chain]
    refine (ho.imp fun _ h => h.imp fun _ => Level.expression_of_operand).bind ?_
    intro left r h hr
    obtain ⟨us, hts, hus⟩ := expressions_sound.2.2.1 _ _ _ _ hr
    exact he left r h us hts (Level.expression_of_operand hus)
  case case2 =>
    intro level ts left h _ us hts hus
    rw [extend]
    exact completable_ok
  case case3 =>
    intro level ts left t line after h hj _ us hts hus
    rw [extend, hj]
    exact completable_ok
  case case4 =>
    intro level ts left t line after h join hj _ ho he us hts hus
    rw [extend, hj]
    have hoperator : NoElse (us ++ [⟨t, line⟩]) :=
      noElse_append.mpr ⟨noElse_of_expression hus, Level.noElse_of_join hj⟩
    refine (ho.prepend (us ++ [⟨t, line⟩]) (by simp [hts]) (.inl hoperator) ?_).bind ?_
    · rintro vs ⟨right, hright⟩
      exact ⟨[], _, by simpa using Level.expression_of_join hj hus hright⟩
    · intro right r h' hr
      obtain ⟨vs, rfl, hvs⟩ := expressions_sound.2.2.1 _ _ _ _ hr
      exact he right r h' (us ++ ⟨t, line⟩ :: vs) (by simp [hts])
        (Level.expression_of_join hj hus hvs)
  case case5 | case6 | case7 | case8 | case9 =>
    intro ts ih
    rw [operand]
    exact ih
  case case10 =>
    intro line ts ih
    rw [signed]
    refine Completable.bind ?_ fun _ _ _ _ => completable_ok
    refine ih.prepend [⟨.arithmetic .sub, line⟩] rfl (.inl (by simp)) ?_
    rintro vs ⟨e, he⟩
    exact ⟨[], _, by simpa using Expression.minus he⟩
  case case11 =>
    intro ts hts ih
    rw [signed.eq_2 ts hts]
    exact ih.imp fun _ h => h.imp fun _ => .signed
  case case12 =>
    rw [primary]
    exact completable_end rfl noElse_nil rfl ⟨[⟨.boolean true, 1⟩], _, .boolean⟩
  case case13 | case14 | case15 =>
    intro a line ts
    rw [primary]
    exact completable_ok
  case case16 =>
    intro line ts ih
    rw [primary]
    exact ih.bind fun _ _ _ _ => completable_ok
  case case17 =>
    intro t line ts hi hb hn ho
    rw [primary]
    · exact completable_error rfl
    all_goals assumption
  case case18 =>
    intro line name l₁ l₂ ts ih
    rw [grouping]
    refine Completable.bind ?_ fun _ _ _ _ =>
      completable_closeParen.bind fun _ _ _ _ => completable_ok
    refine ih.prepend [⟨.openParen, line⟩, ⟨.identifier name, l₁⟩, ⟨.assign, l₂⟩] rfl
      (.inl (by simp)) ?_
    rintro vs ⟨e, he⟩
    exact ⟨[⟨.closeParen, 1⟩], _, .assignment he⟩
  case case19 =>
    intro line ts hts ih
    rw [grouping.eq_2 line ts hts]
    refine Completable.bind ?_ fun _ _ _ _ =>
      completable_closeParen.bind fun _ _ _ _ => completable_ok
    refine ih.prepend [⟨.openParen, line⟩] rfl (.inl (by simp)) ?_
    rintro vs ⟨e, he⟩
    exact ⟨[⟨.closeParen, 1⟩], _, .group he⟩
  case case20 =>
    intro line ts ih
    rw [negation]
    refine Completable.bind ?_ fun _ _ _ _ => completable_ok
    refine ih.prepend [⟨.negation, line⟩] rfl (.inl (by simp)) ?_
    rintro vs ⟨e, he⟩
    exact ⟨[], _, by simpa using Expression.not he⟩
  case case21 =>
    intro ts hts ih
    rw [negation.eq_2 ts hts]
    exact ih.imp fun _ h => h.imp fun _ => .negation

theorem completable_expression {p : List Located → Prop} {ts r : List Located} (us : List Located)
    (hts : ts = us ++ r) (hus : NoElse us)
    (h : ∀ vs e, Expression .disjunction vs e → Begins p (us ++ vs)) :
    Completable p ts (expression r) := by
  refine (expressions_completable.1 .disjunction r).prepend us hts (.inl hus) ?_
  rintro vs ⟨e, he⟩
  exact h _ e he

/-! ### Statements -/

def Spells (p : Expr → Phrase) (us : List Located) : Prop := ∃ e, Derives us (p e)

/-- A body and the brace that closes it. -/
def ClosedBody (us : List Located) : Prop :=
  ∃ vs es l, us = vs ++ [⟨.closeBrace, l⟩] ∧ Derives vs (.body es)

/-- Tokens made up to complete a phrase. -/
def supplied (tokens : List Token) : List Located := tokens.map fun t => ⟨t, 1⟩

theorem expression_true :
    Expression .disjunction [⟨.boolean true, 1⟩] (.literal (.boolean true) 1) :=
  Expression.boolean.of_primary _

theorem block_empty : Derives [⟨.openBrace, 1⟩, ⟨.closeBrace, 1⟩] (.block (.block [] 1)) :=
  .block (.empty Separators.nil)

section

variable {ts us vs r breaks seps : List Located} {e condition thenBranch : Expr}

/-- The tokens of a branch complete a conditional whose `else` awaits one. -/
theorem Completable.branch {α : Type} {x : Except Failure α}
    (hx : Completable (Spells .branch) r x) (hc : Expression .disjunction us condition)
    (hb : Derives vs (.block thenBranch)) (hbreaks : Breaks breaks) (hr : r ≠ []) (line l₁ : Nat)
    (hts : ts = ⟨.keyword .ifWord, line⟩ :: us ++ vs ++ breaks ++ ⟨.keyword .elseWord, l₁⟩ :: r) :
    Completable (Spells .conditional) ts x := by
  refine hx.prepend (⟨.keyword .ifWord, line⟩ :: us ++ vs ++ breaks ++ [⟨.keyword .elseWord, l₁⟩])
    (by simp [hts]) (.inr hr) ?_
  rintro ws ⟨elseBranch, he⟩
  exact ⟨[], _, by simpa using Derives.ifElse hc hb hbreaks he⟩

theorem completable_missing_branch {α : Type} {rest : List Located}
    (hc : Expression .disjunction us condition) (hb : Derives vs (.block thenBranch))
    (hbreaks : Breaks breaks) (line l₁ : Nat)
    (hts : ts = ⟨.keyword .ifWord, line⟩ :: us ++ vs ++ breaks ++ [⟨.keyword .elseWord, l₁⟩]) :
    Completable (Spells .conditional) ts
      (.error ⟨⟨.endOfInput, line⟩, rest⟩ : Except Failure α) := by
  intro failure he _
  cases he
  constructor
  · rw [hts]
    exact ⟨supplied [.openBrace, .closeBrace], _,
      by simpa [supplied] using Derives.ifElse hc hb hbreaks (.elseBlock block_empty)⟩
  · intro _
    exact .inr ⟨[], condition, us, thenBranch, vs, breaks, l₁, hc, hb, hbreaks, hts⟩

/-- A body that goes on where a statement ended can have the statement in front. -/
theorem cons_body_of_endStatement {inBlock : Bool} {es : List Expr}
    (hd : Derives us (.statement e)) (hs : Separators seps)
    (hend : endStatement inBlock r = .ok ()) (hb : Derives vs (.body es))
    (hhead : ∀ v ∈ vs.head?, v ∈ r.head?) : Derives (seps ++ us ++ vs) (.body (e :: es)) := by
  rw [List.append_assoc]
  exact .separators_append hs (.cons_body hd hb (separator_of_endStatement hend hb hhead))

end

/-- Each parser is followed part by part. The tokens in front of a part are known when it fails, and
the tokens of the parts after it are supplied. -/
theorem statements_completable :
    (∀ ts, Completable (Spells .statement) ts (statement ts)) ∧
    (∀ ts, Completable (Spells .statement) ts (forLoop ts)) ∧
    (∀ ts, Completable (Spells .block) ts (block ts)) ∧
    (∀ line ts, Completable ClosedBody ts (blockBody line ts)) ∧
    (∀ ts, Completable (Spells .statement) ts (whileLoop ts)) ∧
    (∀ ts, Completable (Spells .conditional) ts (conditional ts)) := by
  apply statement.mutual_induct
  case case1 =>
    intro line ts ih
    rw [statement]
    exact ih.imp fun _ h => h.imp fun _ => .conditional
  case case2 | case3 =>
    intro line ts ih
    rw [statement]
    exact ih
  case case4 =>
    intro name line l₁ ts
    rw [statement]
    refine Completable.bind ?_ fun _ _ _ _ => completable_ok
    refine completable_expression [⟨.identifier name, line⟩, ⟨.assign, l₁⟩] rfl (by simp) ?_
    intro vs e he
    exact ⟨[], _, by simpa using Derives.assignment he⟩
  case case5 =>
    intro name line op l₁ ts
    rw [statement]
    refine Completable.bind ?_ fun _ _ _ _ => completable_ok
    refine completable_expression [⟨.identifier name, line⟩, ⟨.update op, l₁⟩] rfl (by simp) ?_
    intro vs e he
    exact ⟨[], _, by simpa using Derives.update (updates_iff.mpr rfl) he⟩
  case case6 =>
    intro ts hif hwhile hfor hassign hupdate
    rw [statement.eq_6 ts hif hwhile hfor hassign hupdate]
    refine completable_expression [] rfl noElse_nil ?_
    intro vs e he
    exact ⟨[], e, by simpa using Derives.expression he⟩
  case case7 =>
    intro ts ih
    rw [forLoop]
    refine Completable.bind ?_ fun line r₁ h₁ hr₁ => ?_
    · refine completable_expect [] rfl noElse_nil fun line => ?_
      exact ⟨supplied [.identifier "x", .keyword .inWord, .boolean true, .keyword .toWord,
        .boolean true, .openBrace, .closeBrace], _,
        .forLoop expression_true expression_true block_empty⟩
    obtain rfl := reads_expect.mp hr₁
    refine Completable.bind ?_ fun counter r₂ h₂ hr₂ => ?_
    · refine completable_loopVariable [⟨.keyword .forWord, line⟩] rfl (by simp) fun name l₁ => ?_
      exact ⟨supplied [.keyword .inWord, .boolean true, .keyword .toWord, .boolean true,
        .openBrace, .closeBrace], _, .forLoop expression_true expression_true block_empty⟩
    obtain ⟨l₁, rfl⟩ := reads_loopVariable.mp hr₂
    refine Completable.bind ?_ fun l₂ r₃ h₃ hr₃ => ?_
    · refine completable_expect [⟨.keyword .forWord, line⟩, ⟨.identifier counter, l₁⟩] rfl
        (by simp) fun l₂ => ?_
      exact ⟨supplied [.boolean true, .keyword .toWord, .boolean true, .openBrace, .closeBrace], _,
        .forLoop expression_true expression_true block_empty⟩
    obtain rfl := reads_expect.mp hr₃
    refine Completable.bind ?_ fun first r₄ h₄ hr₄ => ?_
    · refine completable_expression [⟨.keyword .forWord, line⟩, ⟨.identifier counter, l₁⟩,
        ⟨.keyword .inWord, l₂⟩] rfl (by simp) fun us first hf => ?_
      exact ⟨supplied [.keyword .toWord, .boolean true, .openBrace, .closeBrace], _,
        by simpa [supplied] using Derives.forLoop hf expression_true block_empty⟩
    obtain ⟨us, rfl, hf⟩ := expression_sound hr₄
    have hfirst := noElse_of_expression hf
    refine Completable.bind ?_ fun l₃ r₅ h₅ hr₅ => ?_
    · refine completable_expect (⟨.keyword .forWord, line⟩ :: ⟨.identifier counter, l₁⟩ ::
        ⟨.keyword .inWord, l₂⟩ :: us) rfl (by simp [hfirst]) fun l₃ => ?_
      exact ⟨supplied [.boolean true, .openBrace, .closeBrace], _,
        by simpa [supplied] using Derives.forLoop hf expression_true block_empty⟩
    obtain rfl := reads_expect.mp hr₅
    refine Completable.bind ?_ fun last r₆ h₆ hr₆ => ?_
    · refine completable_expression (⟨.keyword .forWord, line⟩ :: ⟨.identifier counter, l₁⟩ ::
        ⟨.keyword .inWord, l₂⟩ :: us ++ [⟨.keyword .toWord, l₃⟩]) (by simp) (by simp [hfirst])
        fun vs last hl => ?_
      exact ⟨supplied [.openBrace, .closeBrace], _,
        by simpa [supplied] using Derives.forLoop hf hl block_empty⟩
    obtain ⟨vs, rfl, hl⟩ := expression_sound hr₆
    have hlast := noElse_of_expression hl
    refine Completable.bind ?_ fun _ _ _ _ => completable_ok
    refine (ih _ h₁ _ h₂ _ h₃ _ h₄ _ h₅ _ h₆).prepend (⟨.keyword .forWord, line⟩ ::
      ⟨.identifier counter, l₁⟩ :: ⟨.keyword .inWord, l₂⟩ :: us ++ ⟨.keyword .toWord, l₃⟩ :: vs)
      (by simp) (.inl (by simp [hfirst, hlast])) ?_
    rintro ws ⟨body, hbody⟩
    exact ⟨[], _, by simpa using Derives.forLoop hf hl hbody⟩
  case case8 =>
    intro ts ih
    rw [block]
    refine Completable.bind ?_ fun line r₁ h₁ hr₁ => ?_
    · refine completable_expect [] rfl noElse_nil fun line => ?_
      exact ⟨supplied [.closeBrace], _, .block (.empty Separators.nil)⟩
    obtain rfl := reads_expect.mp hr₁
    refine Completable.bind ?_ fun _ _ _ _ => completable_ok
    refine (ih line r₁ h₁).prepend [⟨.openBrace, line⟩] rfl (.inl (by simp)) ?_
    rintro vs ⟨body, es, l, hvs, hbody⟩
    rw [hvs]
    exact ⟨[], _, by simpa using Derives.block hbody⟩
  case case9 =>
    intro line ts hts
    rw [blockBody_of_skipSeparators_nil hts]
    obtain ⟨seps, hseps, hs⟩ := separators_skipped ts
    rw [hts, List.append_nil] at hseps
    subst hseps
    exact completable_unclosed rfl ⟨supplied [.closeBrace], ts, [], 1, rfl, .empty hs⟩
  case case10 =>
    intro line ts l rest hts
    rw [blockBody_of_closeBrace hts]
    exact completable_ok
  case case11 =>
    intro line ts t after hne hts _ ihs ihb
    rw [blockBody_of_statement hts hne]
    obtain ⟨seps, hseps, hs⟩ := separators_skipped ts
    rw [hts] at hseps
    refine Completable.bind ?_ fun first r h hr => ?_
    · refine ihs.prepend seps hseps (.inr (List.cons_ne_nil _ _)) ?_
      rintro vs ⟨e, he⟩
      exact ⟨supplied [.closeBrace], _, [e], 1, rfl,
        by simpa using Derives.filled hs (.single he) Separators.nil⟩
    refine completable_endStatement.check fun hend => ?_
    obtain ⟨us, hus, hd⟩ := statements_sound.1 _ _ _ hr
    have htaken : ts = seps ++ us ++ r := by rw [hseps, hus, List.append_assoc]
    cases r with
    | nil =>
      rw [blockBody_of_skipSeparators_nil rfl]
      have hbody := Derives.filled hs (.single hd) Separators.nil
      rw [← htaken] at hbody
      exact completable_unclosed rfl ⟨supplied [.closeBrace], ts, [first], 1, rfl, hbody⟩
    | cons u r =>
      refine Completable.bind ?_ fun _ _ _ _ => completable_ok
      refine (ihb _ h).prepend (seps ++ us) htaken (.inr (List.cons_ne_nil _ _)) ?_
      rintro vs ⟨body, es, l, hvs, hbody⟩
      refine ⟨[], seps ++ us ++ body, first :: es, l, by simp [hvs],
        cons_body_of_endStatement hd hs hend hbody ?_⟩
      intro v hv
      have hv' : v ∈ (u :: r ++ vs).head? := by
        rw [hvs, List.head?_append, Option.mem_def.mp hv]
        rfl
      exact hv'
  case case12 =>
    intro ts ih
    rw [whileLoop]
    refine Completable.bind ?_ fun line r₁ h₁ hr₁ => ?_
    · refine completable_expect [] rfl noElse_nil fun line => ?_
      exact ⟨supplied [.boolean true, .openBrace, .closeBrace], _,
        by simpa [supplied] using Derives.whileLoop expression_true block_empty⟩
    obtain rfl := reads_expect.mp hr₁
    refine Completable.bind ?_ fun condition r₂ h₂ hr₂ => ?_
    · refine completable_expression [⟨.keyword .whileWord, line⟩] rfl (by simp)
        fun us condition hc => ?_
      exact ⟨supplied [.openBrace, .closeBrace], _, .whileLoop hc block_empty⟩
    obtain ⟨us, rfl, hc⟩ := expression_sound hr₂
    refine Completable.bind ?_ fun _ _ _ _ => completable_ok
    refine (ih _ h₁ _ h₂).prepend (⟨.keyword .whileWord, line⟩ :: us) rfl
      (.inl (by simp [noElse_of_expression hc])) ?_
    rintro vs ⟨body, hbody⟩
    exact ⟨[], _, by simpa using Derives.whileLoop hc hbody⟩
  case case13 =>
    intro ts ihthen ihif ihelse
    rw [conditional]
    refine Completable.bind ?_ fun line r₁ h₁ hr₁ => ?_
    · refine completable_expect [] rfl noElse_nil fun line => ?_
      exact ⟨supplied [.boolean true, .openBrace, .closeBrace], _,
        by simpa [supplied] using Derives.ifThen expression_true block_empty⟩
    obtain rfl := reads_expect.mp hr₁
    refine Completable.bind ?_ fun condition r₂ h₂ hr₂ => ?_
    · refine completable_expression [⟨.keyword .ifWord, line⟩] rfl (by simp)
        fun us condition hc => ?_
      exact ⟨supplied [.openBrace, .closeBrace], _, .ifThen hc block_empty⟩
    obtain ⟨us, rfl, hc⟩ := expression_sound hr₂
    refine Completable.bind ?_ fun thenBranch r₃ h₃ hr₃ => ?_
    · refine (ihthen _ h₁ _ h₂).prepend (⟨.keyword .ifWord, line⟩ :: us) rfl
        (.inl (by simp [noElse_of_expression hc])) ?_
      rintro vs ⟨thenBranch, hthen⟩
      exact ⟨[], _, by simpa using Derives.ifThen hc hthen⟩
    obtain ⟨vs, rfl, hthen⟩ := statements_sound.2.2.1 _ _ _ hr₃
    dsimp only
    split
    · exact completable_ok
    · next r₄ hr₄ =>
      have hlt := length_of_afterElse? hr₄
      obtain ⟨breaks, l, rfl, hbreaks⟩ := breaks_of_afterElse? hr₄
      cases r₄ with
      | nil => exact completable_missing_branch hc hthen hbreaks line l (by simp)
      | cons u after =>
        obtain ⟨t, l'⟩ := u
        cases t with
        | keyword word =>
          cases word with
          | ifWord =>
            have hbranch : Completable (Spells .branch) _ (conditional _) :=
              (ihif _ h₁ _ h₂ _ h₃ l' after hlt).imp fun _ h => h.imp fun _ => .elseIf
            exact (hbranch.branch hc hthen hbreaks (List.cons_ne_nil _ _) line l (by simp)).bind
              fun _ _ _ _ => completable_ok
          | _ => exact completable_error rfl
        | openBrace =>
          have hbranch : Completable (Spells .branch) _ (block _) :=
            (ihelse _ h₁ _ h₂ _ h₃ l' after hlt).imp fun _ h => h.imp fun _ => .elseBlock
          exact (hbranch.branch hc hthen hbreaks (List.cons_ne_nil _ _) line l (by simp)).bind
            fun _ _ _ _ => completable_ok
        | _ => exact completable_error rfl

def IsBody (us : List Located) : Prop := ∃ es, Derives us (.body es)

theorem program_completable {ts : List Located} : Completable IsBody ts (program ts) := by
  induction ts using program.induct with
  | case1 ts hts =>
    intro failure he
    exact absurd rfl ((program_eq_error_iff hts).mp he).1
  | case2 ts u after hts _ ih =>
    obtain ⟨seps, hseps, hs⟩ := separators_skipped ts
    rw [hts] at hseps
    intro failure he ht
    obtain ⟨-, he | ⟨first, r, hr, he | ⟨hend, he⟩⟩⟩ := (program_eq_error_iff hts).mp he
    · refine (statements_completable.1 _).prepend seps hseps (.inr (List.cons_ne_nil _ _)) ?_
        failure he ht
      rintro vs ⟨e, h⟩
      exact ⟨[], [e], .filled hs (.single h) Separators.nil⟩
    · exact completable_endStatement failure he ht
    · obtain ⟨us, hus, hd⟩ := statements_sound.1 _ _ _ hr
      have htaken : ts = seps ++ us ++ r := by rw [hseps, hus, List.append_assoc]
      cases r with
      | nil => exact absurd rfl ((program_eq_error_iff rfl).mp he).1
      | cons v r =>
        refine (ih _ hr.shorter).prepend (seps ++ us) htaken (.inr (List.cons_ne_nil _ _)) ?_
          failure he ht
        rintro vs ⟨es, hbody⟩
        have hbody := cons_body_of_endStatement hd hs hend hbody fun _ hv => hv
        exact ⟨[], _, by simpa using hbody⟩

/-! ### Programs that are wrong and programs that are cut short -/

section

variable {ts : List Located} {e : ParseError}

theorem parse_append_of_isUnexpected (h : parse ts = .error e) (hu : e.cause.isUnexpected = true)
    (us : List Located) : parse (ts ++ us) = .error e := by
  obtain ⟨failure, hp, rfl⟩ := parse_eq_error_iff_program.mp h
  rw [ParseError.locateEnd_cause] at hu
  obtain ⟨failure', hp', he⟩ := program_repeats us hp hu
  refine parse_eq_error_iff_program.mpr ⟨failure', hp', ?_⟩
  rw [he, ParseError.locateEnd_of_isUnexpected hu, ParseError.locateEnd_of_isUnexpected hu]

theorem exists_parse_append_of_isTruncation (h : parse ts = .error e)
    (ht : e.cause.isTruncation = true) : ∃ us tree, parse (ts ++ us) = .ok tree := by
  obtain ⟨failure, hp, rfl⟩ := parse_eq_error_iff_program.mp h
  rw [ParseError.locateEnd_cause] at ht
  obtain ⟨us, es, hbody⟩ := (program_completable failure hp ht).1
  exact ⟨us, _, parse_eq_ok_iff_program.mpr ⟨es, program_complete hbody, rfl⟩⟩

theorem line_of_endOfInput (hlines : ∀ u ∈ ts, 1 ≤ u.line) (h : parse ts = .error e)
    (hend : e.cause = .endOfInput) :
    ∃ last, ts.getLast? = some last ∧
      if last.token = .keyword .elseWord then ∀ line, AwaitsBranch ts line ↔ line = e.line
      else e.line = last.line := by
  obtain ⟨failure, hp, rfl⟩ := parse_eq_error_iff_program.mp h
  rw [ParseError.locateEnd_cause] at hend
  have ht : failure.error.cause.isTruncation = true := by rw [hend]; rfl
  rcases (program_completable failure hp ht).2 hend with ⟨hline, hlast⟩ | hawaits
  · have hne : ts ≠ [] := by
      rintro rfl
      exact absurd rfl ((program_eq_error_iff rfl).mp hp).1
    have hts := List.getLast?_eq_some_getLast hne
    refine ⟨ts.getLast hne, hts, ?_⟩
    rw [if_neg (hlast _ hts), ParseError.locateEnd_line_of_end hend hline, lastLine, hts]
    rfl
  · have hline := hawaits.one_le hlines
    obtain ⟨l, hlast⟩ := hawaits.exists_getLast?
    refine ⟨⟨.keyword .elseWord, l⟩, hlast, ?_⟩
    rw [if_pos rfl, ParseError.locateEnd_line_of_pos _ hline]
    exact fun line => ⟨fun h => h.line_unique hawaits, fun h => h ▸ hawaits⟩

end

/-- The kind of an error tells input that is cut short from input that is wrong. What is wrong at
some token stays wrong in the same way, whatever follows. What ends too early can be completed, and
the end is reported on the line of the last token or, after an `else`, of its `if`. -/
theorem parse_error_tells_truncated_from_wrong {ts : List Located} (hlines : ∀ u ∈ ts, 1 ≤ u.line)
    {e : ParseError} (h : parse ts = .error e) :
    (e.cause.isUnexpected = true → ∀ us, parse (ts ++ us) = .error e) ∧
    (e.cause = .endOfInput ∨ e.cause = .unclosedBlock → ∃ us tree, parse (ts ++ us) = .ok tree) ∧
    (e.cause = .endOfInput → ∃ last, ts.getLast? = some last ∧
      if last.token = .keyword .elseWord then ∀ line, AwaitsBranch ts line ↔ line = e.line
      else e.line = last.line) := by
  refine ⟨parse_append_of_isUnexpected h, ?_, line_of_endOfInput hlines h⟩
  intro hcause
  apply exists_parse_append_of_isTruncation h
  rcases hcause with hcause | hcause <;> rw [hcause] <;> rfl

/-- An `else` on line 2 without a branch, and two names in a row. -/
theorem else_awaits_branch_and_second_name_stays_wrong :
    let cut : List Located := [⟨.keyword .ifWord, 1⟩, ⟨.identifier "x", 1⟩, ⟨.openBrace, 1⟩,
      ⟨.closeBrace, 1⟩, ⟨.newline, 2⟩, ⟨.keyword .elseWord, 2⟩]
    let wrong : List Located := [⟨.identifier "x", 1⟩, ⟨.identifier "y", 1⟩]
    let error : ParseError := ⟨.expected .endOfStatement (.identifier "y"), 1⟩
    parse cut = .error ⟨.endOfInput, 1⟩ ∧ (∃ us tree, parse (cut ++ us) = .ok tree) ∧
      AwaitsBranch cut 1 ∧ parse wrong = .error error ∧
      ∀ us, parse (wrong ++ us) = .error error := by
  intro cut wrong error
  have hcut : parse cut = .error ⟨.endOfInput, 1⟩ := by cbv
  have hwrong : parse wrong = .error error := by cbv
  obtain ⟨-, hcomplete, hline⟩ := parse_error_tells_truncated_from_wrong (by decide) hcut
  obtain ⟨last, hlast, hawaits⟩ := hline rfl
  cases hlast
  exact ⟨hcut, hcomplete (.inl rfl), (hawaits 1).mpr rfl, hwrong,
    (parse_error_tells_truncated_from_wrong (by decide) hwrong).1 rfl⟩

end Parser

end BoundedScript
