import BoundedScript.Proofs.Grammar
import BoundedScript.Proofs.Parser.Reads

/-!
# The parser only reads what the grammar derives

Whatever a parser reads off the front of its input, the tokens it took spell the tree it returned.
-/

namespace BoundedScript.Parser

open Grammar

/-- The tokens of `ts` before `rest` spell `e`. -/
def Spelled (c : Category) (ts : List Located) (e : Expr) (rest : List Located) : Prop :=
  ∃ us, ts = us ++ rest ∧ Expression c us e

namespace Level

/-- The category that a chain on this level belongs to. -/
def category : Level → Category
  | disjunction => .disjunction
  | conjunction => .conjunction
  | comparison => .comparison
  | sum => .sum
  | product => .product

/-- The category that the operands of a chain on this level belong to. -/
def operandCategory : Level → Category
  | disjunction => .conjunction
  | conjunction => .negation
  | comparison => .sum
  | sum => .product
  | product => .signed

variable {level : Level} {us vs : List Located} {left right : Expr}

theorem expression_of_operand {e : Expr} (h : Expression level.operandCategory us e) :
    Expression level.category us e := by
  cases level with
  | disjunction => exact .disjunction h
  | conjunction => exact .conjunction h
  | comparison => exact .comparison h
  | sum => exact .sum h
  | product => exact .product h

theorem expression_of_join {t : Token} {line : Nat} {join : Expr → Expr → Nat → Expr}
    (hj : level.join? t = some join) (hl : Expression level.category us left)
    (hr : Expression level.operandCategory vs right) :
    Expression level.category (us ++ ⟨t, line⟩ :: vs) (join left right line) := by
  unfold join? at hj
  split at hj
  · cases hj
    exact .or hl hr
  · cases hj
    exact .and hl hr
  · cases hj
    exact .compare hl hr
  · next op =>
    cases op <;> cases hj
    · exact .add (.inl rfl) hl hr
    · exact .add (.inr rfl) hl hr
  · next op =>
    cases op <;> cases hj
    · exact .multiply (.inl rfl) hl hr
    · exact .multiply (.inr (.inl rfl)) hl hr
    · exact .multiply (.inr (.inr (.inl rfl))) hl hr
    · exact .multiply (.inr (.inr (.inr rfl))) hl hr
  · cases hj

end Level

/-- The induction follows the calls of the parsers. An extension carries along the tokens `us` that
its left operand took. -/
theorem expressions_sound :
    (∀ level ts e rest, Reads (chain level ts) e rest → Spelled level.category ts e rest) ∧
    (∀ level ts left r h us e rest, ts = us ++ r → Expression level.category us left →
      Reads (extend level ts left r h) e rest → Spelled level.category ts e rest) ∧
    (∀ level ts e rest, Reads (operand level ts) e rest → Spelled level.operandCategory ts e rest) ∧
    (∀ ts e rest, Reads (signed ts) e rest → Spelled .signed ts e rest) ∧
    (∀ ts e rest, Reads (primary ts) e rest → Spelled .primary ts e rest) ∧
    (∀ line ts e rest, Reads (grouping line ts) e rest →
      Spelled .primary (⟨.openParen, line⟩ :: ts) e rest) ∧
    (∀ ts e rest, Reads (negation ts) e rest → Spelled .negation ts e rest) := by
  apply chain.mutual_induct
  case case1 =>
    intro level ts ho he e rest h
    obtain ⟨left, r, hr, hleft, hext⟩ := reads_chain.mp h
    obtain ⟨us, hts, hus⟩ := ho _ _ hleft
    exact he _ _ _ us e rest hts (Level.expression_of_operand hus) hext
  case case2 =>
    intro level ts left h _ us e rest hts hus he
    rw [extend] at he
    obtain ⟨rfl, rfl⟩ := reads_ok.mp he
    exact ⟨us, hts, hus⟩
  case case3 =>
    intro level ts left t line after h hj _ us e rest hts hus he
    rw [extend, hj] at he
    obtain ⟨rfl, rfl⟩ := reads_ok.mp he
    exact ⟨us, hts, hus⟩
  case case4 =>
    intro level ts left t line after h join hj _ ho he us e rest hts hus h
    rw [extend, hj] at h
    obtain ⟨right, r, hr, hright, hext⟩ := reads_bind.mp h
    obtain ⟨vs, rfl, hvs⟩ := ho _ _ hright
    refine he _ _ hr (us ++ ⟨t, line⟩ :: vs) e rest ?_ (Level.expression_of_join hj hus hvs) hext
    rw [hts, List.append_assoc, List.cons_append]
  case case5 | case6 | case7 | case8 | case9 =>
    intro ts ih e rest h
    rw [operand] at h
    exact ih e rest h
  case case10 =>
    intro line ts ih e rest h
    obtain ⟨e', he', rfl⟩ := reads_minus.mp h
    obtain ⟨us, rfl, hus⟩ := ih _ _ he'
    exact ⟨⟨.arithmetic .sub, line⟩ :: us, rfl, .minus hus⟩
  case case11 =>
    intro ts hts ih e rest h
    rw [signed.eq_2 ts hts] at h
    obtain ⟨us, rfl, hus⟩ := ih _ _ h
    exact ⟨us, rfl, .signed hus⟩
  case case12 =>
    intro e rest h
    rw [primary] at h
    exact absurd h not_reads_error
  case case13 =>
    intro n line ts e rest h
    rw [primary] at h
    obtain ⟨rfl, rfl⟩ := reads_ok.mp h
    exact ⟨[⟨.integer n, line⟩], rfl, .integer⟩
  case case14 =>
    intro b line ts e rest h
    rw [primary] at h
    obtain ⟨rfl, rfl⟩ := reads_ok.mp h
    exact ⟨[⟨.boolean b, line⟩], rfl, .boolean⟩
  case case15 =>
    intro name line ts e rest h
    rw [primary] at h
    obtain ⟨rfl, rfl⟩ := reads_ok.mp h
    exact ⟨[⟨.identifier name, line⟩], rfl, .var⟩
  case case16 =>
    intro line ts ih e rest h
    exact ih _ _ (reads_parenthesis.mp h)
  case case17 =>
    intro t line ts hi hb hn ho e rest h
    rw [primary] at h
    · exact absurd h not_reads_error
    all_goals assumption
  case case18 =>
    intro line name l₁ l₂ ts ih e rest h
    obtain ⟨value, l₃, hv, rfl⟩ := reads_grouping_assignment.mp h
    obtain ⟨us, rfl, hus⟩ := ih _ _ hv
    exact ⟨⟨.openParen, line⟩ :: ⟨.identifier name, l₁⟩ :: ⟨.assign, l₂⟩ :: us ++
      [⟨.closeParen, l₃⟩], by simp, .assignment hus⟩
  case case19 =>
    intro line ts hts ih e rest h
    obtain ⟨l, he⟩ := (reads_grouping hts).mp h
    obtain ⟨us, rfl, hus⟩ := ih _ _ he
    exact ⟨⟨.openParen, line⟩ :: us ++ [⟨.closeParen, l⟩], by simp, .group hus⟩
  case case20 =>
    intro line ts ih e rest h
    obtain ⟨e', he', rfl⟩ := reads_not.mp h
    obtain ⟨us, rfl, hus⟩ := ih _ _ he'
    exact ⟨⟨.negation, line⟩ :: us, rfl, .not hus⟩
  case case21 =>
    intro ts hts ih e rest h
    rw [negation.eq_2 ts hts] at h
    obtain ⟨us, rfl, hus⟩ := ih _ _ h
    exact ⟨us, rfl, .negation hus⟩

theorem expression_sound {ts rest : List Located} {e : Expr} (h : Reads (expression ts) e rest) :
    Spelled .disjunction ts e rest :=
  expressions_sound.1 .disjunction ts e rest h

theorem isSeparator_iff {t : Token} : t.isSeparator = true ↔ t = .newline ∨ t = .semicolon := by
  unfold Token.isSeparator
  split <;> simp_all

theorem separators_skipped (ts : List Located) :
    ∃ seps, ts = seps ++ skipSeparators ts ∧ Separators seps := by
  refine ⟨ts.takeWhile (·.token.isSeparator), List.takeWhile_append_dropWhile.symm, ?_⟩
  intro u hu
  exact isSeparator_iff.mp (List.all_eq_true.mp List.all_takeWhile u hu)

theorem breaks_of_afterElse? {ts rest : List Located} (h : afterElse? ts = some rest) :
    ∃ breaks line, ts = breaks ++ ⟨.keyword .elseWord, line⟩ :: rest ∧ Breaks breaks := by
  fun_induction afterElse? ts with
  | case1 line ts ih =>
    obtain ⟨breaks, l, rfl, hb⟩ := ih h
    refine ⟨⟨.newline, line⟩ :: breaks, l, rfl, ?_⟩
    intro u hu
    rcases List.mem_cons.mp hu with rfl | hu
    · rfl
    · exact hb u hu
  | case2 line ts =>
    cases h
    exact ⟨[], line, rfl, by simp [Breaks]⟩
  | case3 => cases h

theorem endStatement_eq_ok_iff {inBlock : Bool} {ts : List Located} :
    endStatement inBlock ts = .ok () ↔
      ∀ u ∈ ts.head?, (u.token = .newline ∨ u.token = .semicolon) ∨
        inBlock = true ∧ u.token = .closeBrace := by
  simp only [← isSeparator_iff]
  unfold endStatement
  split
  · simp
  · next t line rest => cases h : t.isSeparator <;> simp [h]

/-- A body that follows a statement starts with a separator: a closing brace starts no body. -/
theorem separator_of_endStatement {inBlock : Bool} {ts us : List Located} {es : List Expr}
    (hend : endStatement inBlock ts = .ok ()) (hb : Derives us (.body es))
    (hhead : ∀ u ∈ us.head?, u ∈ ts.head?) :
    ∀ u ∈ us.head?, u.token = .newline ∨ u.token = .semicolon := by
  intro u hu
  rcases endStatement_eq_ok_iff.mp hend u (hhead u hu) with hsep | ⟨-, hbrace⟩
  · exact hsep
  · rcases hb.starts_body u hu with hsep | hstart
    · exact hsep
    · rw [hbrace] at hstart
      cases hstart

/-- The tokens of `ts` before `rest` spell the phrase. -/
def Taken (p : Phrase) (ts rest : List Located) : Prop := ∃ us, ts = us ++ rest ∧ Derives us p

theorem statements_sound :
    (∀ ts e rest, Reads (statement ts) e rest → Taken (.statement e) ts rest) ∧
    (∀ ts e rest, Reads (forLoop ts) e rest → Taken (.statement e) ts rest) ∧
    (∀ ts e rest, Reads (block ts) e rest → Taken (.block e) ts rest) ∧
    (∀ line ts es rest, Reads (blockBody line ts) es rest →
      ∃ l, Taken (.body es) ts (⟨.closeBrace, l⟩ :: rest)) ∧
    (∀ ts e rest, Reads (whileLoop ts) e rest → Taken (.statement e) ts rest) ∧
    (∀ ts e rest, Reads (conditional ts) e rest → Taken (.conditional e) ts rest) := by
  apply statement.mutual_induct
  case case1 =>
    intro line ts ih e rest h
    rw [statement] at h
    obtain ⟨us, hts, hus⟩ := ih e rest h
    exact ⟨us, hts, .conditional hus⟩
  case case2 | case3 =>
    intro line ts ih e rest h
    rw [statement] at h
    exact ih e rest h
  case case4 =>
    intro name line l₁ ts e rest h
    obtain ⟨value, hv, rfl⟩ := reads_assignment.mp h
    obtain ⟨us, rfl, hus⟩ := expression_sound hv
    exact ⟨⟨.identifier name, line⟩ :: ⟨.assign, l₁⟩ :: us, rfl, .assignment hus⟩
  case case5 =>
    intro name line op l₁ ts e rest h
    obtain ⟨value, hv, rfl⟩ := reads_update.mp h
    obtain ⟨us, rfl, hus⟩ := expression_sound hv
    exact ⟨⟨.identifier name, line⟩ :: ⟨.update op, l₁⟩ :: us, rfl,
      .update (updates_iff.mpr rfl) hus⟩
  case case6 =>
    intro ts hif hwhile hfor hassign hupdate e rest h
    rw [statement.eq_6 ts hif hwhile hfor hassign hupdate] at h
    obtain ⟨us, hts, hus⟩ := expression_sound h
    exact ⟨us, hts, .expression hus⟩
  case case7 =>
    intro ts ih e rest h
    obtain ⟨line, counter, l₁, l₂, r₁, first, l₃, r₂, last, r₃, body, rfl, hf, hl, hb, rfl⟩ :=
      reads_forLoop.mp h
    obtain ⟨ws, rfl, hws⟩ := ih _ (Nat.lt_succ_self _) _ (Nat.lt_succ_self _) _ (Nat.lt_succ_self _)
      _ hf.shorter _ (Nat.lt_succ_self _) _ hl.shorter _ _ hb
    obtain ⟨us, rfl, hus⟩ := expression_sound hf
    obtain ⟨vs, rfl, hvs⟩ := expression_sound hl
    exact ⟨⟨.keyword .forWord, line⟩ :: ⟨.identifier counter, l₁⟩ :: ⟨.keyword .inWord, l₂⟩ ::
      us ++ ⟨.keyword .toWord, l₃⟩ :: vs ++ ws, by simp, .forLoop hus hvs hws⟩
  case case8 =>
    intro ts ih e rest h
    obtain ⟨line, r₁, es, rfl, hb, rfl⟩ := reads_block.mp h
    obtain ⟨l, us, rfl, hus⟩ := ih line r₁ (Nat.lt_succ_self _) _ _ hb
    exact ⟨⟨.openBrace, line⟩ :: us ++ [⟨.closeBrace, l⟩], by simp, .block hus⟩
  case case9 =>
    intro line ts hts es rest h
    rcases (reads_blockBody hts).mp h with ⟨l, hl, -⟩ | ⟨first, r, others, -, hf, -⟩
    · cases hl
    · exact absurd hf.shorter (Nat.not_lt_zero _)
  case case10 =>
    intro line ts l r hts es rest h
    obtain ⟨seps, hseps, hs⟩ := separators_skipped ts
    rw [hts] at hseps
    rcases (reads_blockBody hts).mp h with ⟨l', hl, rfl⟩ | ⟨first, r', others, hne, -⟩
    · cases hl
      exact ⟨l, seps, hseps, .empty hs⟩
    · exact absurd rfl (hne l r)
  case case11 =>
    intro line ts t after hne hts _ ihs ihb es rest h
    obtain ⟨seps, hseps, hs⟩ := separators_skipped ts
    rw [hts] at hseps
    rcases (reads_blockBody hts).mp h with ⟨l, hl, -⟩ | ⟨first, r, others, -, hf, hend, ho, rfl⟩
    · exact absurd (List.cons.inj hl).1 (hne l)
    · obtain ⟨us, husr, hus⟩ := ihs _ _ hf
      obtain ⟨l, vs, rfl, hvs⟩ := ihb _ hf.shorter _ _ ho
      have htaken : ts = seps ++ (us ++ vs) ++ ⟨.closeBrace, l⟩ :: rest := by
        rw [hseps, husr]
        simp
      refine ⟨l, seps ++ (us ++ vs), htaken, .separators_append hs (.cons_body hus hvs ?_)⟩
      apply separator_of_endStatement hend hvs
      intro v hv
      simp_all
  case case12 =>
    intro ts ih e rest h
    obtain ⟨line, r₁, condition, r₂, body, rfl, hc, hb, rfl⟩ := reads_whileLoop.mp h
    obtain ⟨vs, rfl, hvs⟩ := ih _ (Nat.lt_succ_self _) _ hc.shorter _ _ hb
    obtain ⟨us, rfl, hus⟩ := expression_sound hc
    exact ⟨⟨.keyword .whileWord, line⟩ :: us ++ vs, by simp, .whileLoop hus hvs⟩
  case case13 =>
    intro ts ihthen ihif ihelse e rest h
    obtain ⟨line, r₁, condition, r₂, thenBranch, r₃, rfl, hc, hb, he⟩ := reads_conditional.mp h
    have hlt : r₁.length < (⟨.keyword .ifWord, line⟩ :: r₁ : List Located).length :=
      Nat.lt_succ_self _
    obtain ⟨vs, rfl, hvs⟩ := ihthen _ hlt _ hc.shorter _ _ hb
    obtain ⟨us, rfl, hus⟩ := expression_sound hc
    rcases he with ⟨-, rfl, rfl⟩ | ⟨r₄, elseBranch, hafter, hr, rfl⟩
    · exact ⟨⟨.keyword .ifWord, line⟩ :: us ++ vs, by simp, .ifThen hus hvs⟩
    · have hr₄ := length_of_afterElse? hafter
      obtain ⟨breaks, l, rfl, hbreaks⟩ := breaks_of_afterElse? hafter
      have hbranch : Taken (.branch elseBranch) r₄ rest := by
        rcases hr with hr | hr
        · obtain ⟨l', after, rfl⟩ := hr.starts_conditional
          obtain ⟨ws, hws, hd⟩ := ihif _ hlt _ hc.shorter _ hb.shorter _ _ hr₄ _ _ hr
          exact ⟨ws, hws, .elseIf hd⟩
        · obtain ⟨l', after, es, rfl, -⟩ := reads_block.mp hr
          obtain ⟨ws, hws, hd⟩ := ihelse _ hlt _ hc.shorter _ hb.shorter _ _ hr₄ _ _ hr
          exact ⟨ws, hws, .elseBlock hd⟩
      obtain ⟨ws, rfl, hws⟩ := hbranch
      exact ⟨⟨.keyword .ifWord, line⟩ :: us ++ vs ++ breaks ++ ⟨.keyword .elseWord, l⟩ :: ws,
        by simp, .ifElse hus hvs hbreaks hws⟩

theorem program_sound {ts : List Located} {es : List Expr} (h : program ts = .ok es) :
    Derives ts (.body es) := by
  induction ts using program.induct generalizing es with
  | case1 ts hts =>
    obtain ⟨seps, hseps, hs⟩ := separators_skipped ts
    rw [hts, List.append_nil] at hseps
    rcases (program_eq_ok_iff hts).mp h with ⟨-, rfl⟩ | ⟨first, r, others, hf, -⟩
    · rw [hseps]
      exact .empty hs
    · exact absurd hf.shorter (Nat.not_lt_zero _)
  | case2 ts t after hts _ ih =>
    obtain ⟨seps, hseps, hs⟩ := separators_skipped ts
    rw [hts] at hseps
    rcases (program_eq_ok_iff hts).mp h with ⟨ht, -⟩ | ⟨first, r, others, hf, hend, ho, rfl⟩
    · cases ht
    · obtain ⟨us, husr, hus⟩ := statements_sound.1 _ _ _ hf
      rw [hseps, husr]
      have hothers := ih _ hf.shorter ho
      exact .separators_append hs
        (.cons_body hus hothers (separator_of_endStatement hend hothers fun _ hv => hv))

end BoundedScript.Parser
