import BoundedScript.Program
import BoundedScript.Proofs.Parser.Soundness

/-!
# The parser reads all that the grammar derives

A parser takes as many tokens as it can and never goes back. That loses no derivation because what
may follow a phrase can never prolong it. So the statements here are about a phrase followed by any
rest of which this is known: the operators at the front of the rest are looser than the phrase, and
after a conditional no `else` is in sight.
-/

namespace BoundedScript.Parser

open Grammar

/-! ### Expressions -/

section

variable {level : Level} {ts us rest : List Located} {e left right : Expr}

/-- A chain that has reached `rest` with the tree `e`, and may go on. -/
def Continues (level : Level) (ts : List Located) (e : Expr) (rest : List Located) : Prop :=
  ∃ h, ∀ e' rest', Reads (extend level ts e rest h) e' rest' → Reads (chain level ts) e' rest'

theorem Continues.of_operand (h : Reads (operand level ts) e rest) : Continues level ts e rest :=
  ⟨h.shorter, fun _ _ he => reads_chain.mpr ⟨e, rest, h.shorter, h, he⟩⟩

theorem Continues.join {t : Token} {line : Nat} {join : Expr → Expr → Nat → Expr}
    (h : Continues level ts left (⟨t, line⟩ :: us)) (hj : level.join? t = some join)
    (hr : Reads (operand level us) right rest) :
    Continues level ts (join left right line) rest := by
  obtain ⟨hlt, hgo⟩ := h
  have hlt' : rest.length < ts.length := Nat.lt_trans hr.shorter (Nat.lt_of_succ_lt hlt)
  refine ⟨hlt', ?_⟩
  intro e' rest' he
  apply hgo e' rest'
  exact reads_extend.mpr (.inr ⟨t, line, us, join, right, rest, hlt', rfl, hj, hr, he⟩)

theorem Continues.reads (h : Continues level ts e rest) (hs : level.Stops rest) :
    Reads (chain level ts) e rest := by
  obtain ⟨hlt, hgo⟩ := h
  exact hgo e rest (reads_extend.mpr (.inl ⟨hs, rfl, rfl⟩))

/-- The levels whose operators would prolong the last operand of a phrase. -/
def inner : Category → List Level
  | .disjunction => [.conjunction, .comparison, .sum, .product]
  | .conjunction | .negation => [.comparison, .sum, .product]
  | .comparison => [.sum, .product]
  | .sum => [.product]
  | .product | .signed | .primary => []

/-- The parser of the category reaches `rest` with the tree `e`. -/
def Reaches (c : Category) (ts : List Located) (e : Expr) (rest : List Located) : Prop :=
  match c with
  | .disjunction => Continues .disjunction ts e rest
  | .conjunction => Continues .conjunction ts e rest
  | .negation => Reads (negation ts) e rest
  | .comparison => Continues .comparison ts e rest
  | .sum => Continues .sum ts e rest
  | .product => Continues .product ts e rest
  | .signed => Reads (signed ts) e rest
  | .primary => Reads (primary ts) e rest

theorem inner_operandCategory_subset (level : Level) :
    inner level.operandCategory ⊆ inner level.category := by
  cases level <;> simp [inner, Level.operandCategory, Level.category]

/-- An operand is read as soon as its parser has reached a rest that does not prolong it. -/
theorem reads_operand (level : Level)
    (h : (∀ l ∈ inner level.operandCategory, l.Stops rest) →
      Reaches level.operandCategory ts e rest)
    (hs : ∀ l ∈ inner level.category, l.Stops rest) : Reads (operand level ts) e rest := by
  have hr := h fun l hl => hs l (inner_operandCategory_subset level hl)
  rw [operand.eq_def]
  cases level with
  | disjunction => exact Continues.reads hr (hs .conjunction (by decide))
  | conjunction => exact hr
  | comparison => exact Continues.reads hr (hs .sum (by decide))
  | sum => exact Continues.reads hr (hs .product (by decide))
  | product => exact hr

/-- No expression starts with a name and a sign that assigns to it. -/
theorem not_assignment_of_expression {c : Category} (h : Expression c us e)
    (hrest : ∀ u ∈ rest.head?, u.token ≠ .assign ∧ ∀ op, u.token ≠ .update op)
    {name : String} {l₁ : Nat} {u : Located} {after : List Located}
    (heq : us ++ rest = ⟨.identifier name, l₁⟩ :: u :: after) :
    u.token ≠ .assign ∧ ∀ op, u.token ≠ .update op := by
  induction h generalizing rest after with
  | disjunction _ ih | conjunction _ ih | negation _ ih | comparison _ ih | sum _ ih | product _ ih
  | signed _ ih => exact ih hrest heq
  | or _ _ ih | and _ _ ih | compare _ _ ih | add _ _ _ ih | multiply _ _ _ ih =>
    rw [List.append_assoc] at heq
    exact ih (by simp) heq
  | not | minus | integer | boolean | assignment | group => cases heq
  | var =>
    cases heq
    exact hrest u rfl

/-- A token joins operands on one level only. -/
theorem join?_eq_none_of_ne {l : Level} {t : Token} {join : Expr → Expr → Nat → Expr}
    (hj : level.join? t = some join) (hne : l ≠ level) : l.join? t = none := by
  unfold Level.join? at hj ⊢
  split at hj
  case h_6 => cases hj
  all_goals cases l <;> simp_all

theorem stops_of_join (level : Level) {t : Token} {line : Nat} {join : Expr → Expr → Nat → Expr}
    (hj : level.join? t = some join) : ∀ l ∈ inner level.category, l.Stops (⟨t, line⟩ :: us) := by
  intro l hl u hu
  cases hu
  apply join?_eq_none_of_ne hj
  rintro rfl
  revert hl
  cases l <;> decide

theorem stops_delimiter {t : Token} {line : Nat}
    (ht : t = .closeParen ∨ t = .openBrace ∨ t = .keyword .toWord) (level : Level) :
    level.Stops (⟨t, line⟩ :: us) := by
  intro u hu
  cases hu
  rcases ht with rfl | rfl | rfl <;> cases level <;> rfl

theorem reaches_of_expression {c : Category} (h : Expression c us e) :
    (∀ level ∈ inner c, level.Stops rest) → Reaches c (us ++ rest) e rest := by
  induction h generalizing rest with
  | disjunction _ ih =>
    intro hs
    exact Continues.of_operand (reads_operand .disjunction ih hs)
  | conjunction _ ih =>
    intro hs
    exact Continues.of_operand (reads_operand .conjunction ih hs)
  | comparison _ ih =>
    intro hs
    exact Continues.of_operand (reads_operand .comparison ih hs)
  | sum _ ih =>
    intro hs
    exact Continues.of_operand (reads_operand .sum ih hs)
  | product _ ih =>
    intro hs
    exact Continues.of_operand (reads_operand .product ih hs)
  | or _ _ ihl ihr =>
    intro hs
    rw [List.append_assoc, List.cons_append]
    have hright := reads_operand .disjunction ihr hs
    exact Continues.join (ihl (stops_of_join .disjunction rfl)) rfl hright
  | and _ _ ihl ihr =>
    intro hs
    rw [List.append_assoc, List.cons_append]
    have hright := reads_operand .conjunction ihr hs
    exact Continues.join (ihl (stops_of_join .conjunction rfl)) rfl hright
  | compare _ _ ihl ihr =>
    intro hs
    rw [List.append_assoc, List.cons_append]
    have hright := reads_operand .comparison ihr hs
    exact Continues.join (ihl (stops_of_join .comparison rfl)) rfl hright
  | add hop _ _ ihl ihr =>
    intro hs
    rw [List.append_assoc, List.cons_append]
    rcases hop with rfl | rfl <;>
      exact Continues.join (ihl (stops_of_join .sum rfl)) rfl (reads_operand .sum ihr hs)
  | multiply hop _ _ ihl ihr =>
    intro hs
    rw [List.append_assoc, List.cons_append]
    rcases hop with rfl | rfl | rfl | rfl <;>
      exact Continues.join (ihl (stops_of_join .product rfl)) rfl (reads_operand .product ihr hs)
  | negation h ih =>
    intro hs
    have hr := Continues.reads (ih fun l hl => hs l (by revert hl; cases l <;> decide))
      (hs .comparison (by decide))
    obtain ⟨u, vs, rfl, hu⟩ := h.starts
    change Reads (negation _) _ _
    rw [negation.eq_2]
    · exact hr
    · intro line after heq
      cases heq
      cases hu
  | signed h ih =>
    intro hs
    have hr := ih hs
    obtain ⟨u, vs, rfl, hu⟩ := h.starts
    change Reads (signed _) _ _
    rw [signed.eq_2]
    · exact hr
    · intro line after heq
      cases heq
      cases hu
  | not _ ih =>
    intro hs
    exact reads_not.mpr ⟨_, ih hs, rfl⟩
  | minus _ ih =>
    intro hs
    exact reads_minus.mpr ⟨_, ih hs, rfl⟩
  | integer | boolean | var =>
    intro _
    simp [Reaches, primary]
  | @assignment name us e line l₁ l₂ l₃ _ ih =>
    intro _
    have hstop : ∀ level : Level, level.Stops (⟨.closeParen, l₃⟩ :: rest) :=
      stops_delimiter (.inl rfl)
    have hr := Continues.reads (ih fun l _ => hstop l) (hstop .disjunction)
    simp only [List.cons_append, List.append_assoc, List.nil_append]
    exact reads_parenthesis.mpr (reads_grouping_assignment.mpr ⟨e, l₃, hr, rfl⟩)
  | @group us e line l₁ h ih =>
    intro _
    have hstop : ∀ level : Level, level.Stops (⟨.closeParen, l₁⟩ :: rest) :=
      stops_delimiter (.inl rfl)
    have hr := Continues.reads (ih fun l _ => hstop l) (hstop .disjunction)
    simp only [List.cons_append, List.append_assoc, List.nil_append]
    refine reads_parenthesis.mpr ((reads_grouping ?_).mpr ⟨l₁, hr⟩)
    intro name l₂ l₃ after heq
    exact (not_assignment_of_expression h (by simp) heq).1 rfl

theorem expression_complete (h : Expression .disjunction us e)
    (hs : ∀ level : Level, level.Stops rest) :
    Reads (expression (us ++ rest)) e rest :=
  Continues.reads (reaches_of_expression h fun level _ => hs level) (hs .disjunction)

end

/-! ### Statements -/

section

variable {ts us rest : List Located} {e : Expr} {es : List Expr}

theorem skipSeparators_append {seps : List Located} (h : Separators seps) :
    skipSeparators (seps ++ ts) = skipSeparators ts := by
  induction seps with
  | nil => rfl
  | cons u seps ih =>
    have hu := isSeparator_iff.mpr (h u (by simp))
    simp only [skipSeparators, List.cons_append, List.dropWhile_cons, hu, if_true] at ih ⊢
    exact ih fun v hv => h v (by simp [hv])

theorem skipSeparators_cons {u : Located} (h : startsStatement u.token = true) :
    skipSeparators (u :: ts) = u :: ts := by
  have hu : ¬ u.token.isSeparator = true := fun hs =>
    not_separator_of_startsStatement h (isSeparator_iff.mp hs)
  simp [skipSeparators, hu]

theorem afterElse?_breaks {breaks : List Located} (h : Breaks breaks) :
    afterElse? (breaks ++ ts) = afterElse? ts := by
  induction breaks with
  | nil => rfl
  | cons u breaks ih =>
    obtain ⟨t, line⟩ := u
    obtain rfl : t = .newline := h ⟨t, line⟩ (by simp)
    exact ih fun v hv => h v (by simp [hv])

/-- No `else` is in sight beyond separators and the start of another statement. -/
theorem afterElse?_separators {seps : List Located} (h : Separators seps)
    (hts : afterElse? ts = none) : afterElse? (seps ++ ts) = none := by
  induction seps with
  | nil => exact hts
  | cons u seps ih =>
    obtain ⟨t, line⟩ := u
    rcases h ⟨t, line⟩ (by simp) with rfl | rfl
    · exact ih fun v hv => h v (by simp [hv])
    · rfl

theorem afterElse?_startsStatement {u : Located} (h : startsStatement u.token = true) :
    afterElse? (u :: ts) = none := by
  obtain ⟨t, line⟩ := u
  unfold afterElse?
  split
  · next heq => cases heq; cases h
  · next heq => cases heq; cases h
  · rfl

/-- Where a statement may end, no expression goes on. -/
theorem stops_of_endStatement {inBlock : Bool} (h : endStatement inBlock rest = .ok ())
    (level : Level) : level.Stops rest := by
  intro u hu
  obtain ⟨t, line⟩ := u
  rcases endStatement_eq_ok_iff.mp h _ hu with (rfl | rfl) | ⟨-, rfl⟩ <;> cases level <;> rfl

theorem not_assignment_of_endStatement {inBlock : Bool} (h : endStatement inBlock rest = .ok ()) :
    ∀ u ∈ rest.head?, u.token ≠ .assign ∧ ∀ op, u.token ≠ .update op := by
  intro u hu
  rcases endStatement_eq_ok_iff.mp h u hu with (ht | ht) | ⟨-, ht⟩ <;> simp [ht]

theorem endStatement_separators {inBlock : Bool} {seps : List Located} (h : Separators seps)
    (hend : seps = [] → endStatement inBlock ts = .ok ()) :
    endStatement inBlock (seps ++ ts) = .ok () := by
  cases seps with
  | nil => exact hend rfl
  | cons u seps =>
    apply endStatement_eq_ok_iff.mpr
    intro v hv
    cases hv
    exact .inl (h u (by simp))

/-- `A ts es` says that a loop over statements gets from `ts` to its end with the trees `es`. A loop
skips separators and reads statement after statement. -/
structure StatementLoop (inBlock : Bool) (A : List Located → List Expr → Prop) : Prop where
  skip {seps ts es} : Separators seps → A ts es → A (seps ++ ts) es
  step {u us e rest es} : startsStatement u.token = true → Reads (statement (u :: us)) e rest →
    endStatement inBlock rest = .ok () → A rest es → A (u :: us) (e :: es)

theorem programLoop : StatementLoop false fun ts es => program ts = .ok es where
  skip {seps ts es} hs h := by
    rw [program_eq_ok_iff (skipSeparators_append hs), ← program_eq_ok_iff rfl]
    exact h
  step {u us e rest es} hu hr hend h :=
    (program_eq_ok_iff (skipSeparators_cons hu)).mpr (.inr ⟨e, rest, es, hr, hend, h, rfl⟩)

theorem blockLoop (line : Nat) (after : List Located) :
    StatementLoop true fun ts es => Reads (blockBody line ts) es after where
  skip {seps ts es} hs h := by
    rw [reads_blockBody (skipSeparators_append hs), ← reads_blockBody rfl]
    exact h
  step {u us e rest es} hu hr hend h := by
    refine (reads_blockBody (skipSeparators_cons hu)).mpr (.inr ⟨e, rest, es, ?_, hr, hend, h, rfl⟩)
    intro l after' heq
    cases heq
    cases hu

/-- The parser for a phrase reads it off the front of the tokens, whatever follows. -/
def Read (us : List Located) : Phrase → Prop
  | .statement e => ∀ inBlock rest, endStatement inBlock rest = .ok () → afterElse? rest = none →
      Reads (statement (us ++ rest)) e rest
  | .conditional e => ∀ rest, afterElse? rest = none → Reads (conditional (us ++ rest)) e rest
  | .branch e => ∀ rest, afterElse? rest = none →
      Reads (conditional (us ++ rest)) e rest ∨ Reads (block (us ++ rest)) e rest
  | .block e => ∀ rest, Reads (block (us ++ rest)) e rest
  | .statements es => ∀ inBlock A, StatementLoop inBlock A → ∀ rest es',
      endStatement inBlock rest = .ok () → afterElse? rest = none → A rest es' →
      A (us ++ rest) (es ++ es')
  | .body es => ∀ inBlock A, StatementLoop inBlock A → ∀ rest,
      endStatement inBlock rest = .ok () → afterElse? rest = none → A rest [] → A (us ++ rest) es

theorem reads_condition {vs : List Located} {body : Expr} (hc : Expression .disjunction us e)
    (hb : Derives vs (.block body)) : Reads (expression (us ++ (vs ++ rest))) e (vs ++ rest) := by
  obtain ⟨line, ws, rfl⟩ := hb.starts_block
  exact expression_complete hc (stops_delimiter (.inr (.inl rfl)))

theorem read_of_derives {p : Phrase} (h : Derives us p) : Read us p := by
  induction h with
  | conditional h ih =>
    intro inBlock rest _ helse
    exact Reads.statement (.inl (ih rest helse))
  | @whileLoop us vs condition body line hc hb ihb =>
    intro inBlock rest _ _
    have hts : ⟨.keyword .whileWord, line⟩ :: us ++ vs ++ rest =
        ⟨.keyword .whileWord, line⟩ :: (us ++ (vs ++ rest)) := by simp
    exact Reads.statement (.inr (.inl (reads_whileLoop.mpr ⟨line, _, condition, _, body, hts,
      reads_condition hc hb, ihb rest, rfl⟩)))
  | @forLoop counter us vs ws first last body line l₁ l₂ l₃ hf hl hb ihb =>
    intro inBlock rest _ _
    have hts : ⟨.keyword .forWord, line⟩ :: ⟨.identifier counter, l₁⟩ :: ⟨.keyword .inWord, l₂⟩ ::
        us ++ ⟨.keyword .toWord, l₃⟩ :: vs ++ ws ++ rest =
          ⟨.keyword .forWord, line⟩ :: ⟨.identifier counter, l₁⟩ :: ⟨.keyword .inWord, l₂⟩ ::
            (us ++ ⟨.keyword .toWord, l₃⟩ :: (vs ++ (ws ++ rest))) := by simp
    have hfirst : Reads (expression (us ++ ⟨.keyword .toWord, l₃⟩ :: (vs ++ (ws ++ rest)))) first
        (⟨.keyword .toWord, l₃⟩ :: (vs ++ (ws ++ rest))) :=
      expression_complete hf (stops_delimiter (.inr (.inr rfl)))
    exact Reads.statement (.inr (.inr (reads_forLoop.mpr ⟨line, counter, l₁, l₂, _, first, l₃, _,
      last, _, body, hts, hfirst, reads_condition hl hb, ihb rest, rfl⟩)))
  | assignment h =>
    intro inBlock rest hend _
    exact reads_assignment.mpr ⟨_, expression_complete h (stops_of_endStatement hend), rfl⟩
  | update hop h =>
    intro inBlock rest hend _
    obtain rfl := updates_iff.mp hop
    exact reads_update.mpr ⟨_, expression_complete h (stops_of_endStatement hend), rfl⟩
  | @expression us e h =>
    intro inBlock rest hend _
    have hr := expression_complete h (stops_of_endStatement hend)
    have hrest := not_assignment_of_endStatement hend
    have hassign := @not_assignment_of_expression us rest e _ h hrest
    obtain ⟨u, vs, rfl, hu⟩ := h.starts
    rw [statement.eq_6]
    · exact hr
    · intro line after heq
      cases heq
      cases hu
    · intro line after heq
      cases heq
      cases hu
    · intro line after heq
      cases heq
      cases hu
    · intro name l₁ l₂ after heq
      exact (hassign heq).1 rfl
    · intro name l₁ op l₂ after heq
      exact (hassign heq).2 op rfl
  | @ifThen us vs condition thenBranch line hc hb ihb =>
    intro rest helse
    have hts : ⟨.keyword .ifWord, line⟩ :: us ++ vs ++ rest =
        ⟨.keyword .ifWord, line⟩ :: (us ++ (vs ++ rest)) := by simp
    exact reads_conditional.mpr ⟨line, _, condition, _, thenBranch, rest, hts,
      reads_condition hc hb, ihb rest, .inl ⟨helse, rfl, rfl⟩⟩
  | @ifElse us vs breaks ws condition thenBranch elseBranch line l₁ hc hb hbreaks he ihb ihe =>
    intro rest helse
    have hts : ⟨.keyword .ifWord, line⟩ :: us ++ vs ++ breaks ++
        ⟨.keyword .elseWord, l₁⟩ :: ws ++ rest = ⟨.keyword .ifWord, line⟩ ::
          (us ++ (vs ++ (breaks ++ ⟨.keyword .elseWord, l₁⟩ :: (ws ++ rest)))) := by simp
    have hafter : afterElse? (breaks ++ ⟨.keyword .elseWord, l₁⟩ :: (ws ++ rest)) =
        some (ws ++ rest) := by
      rw [afterElse?_breaks hbreaks, afterElse?]
    exact reads_conditional.mpr ⟨line, _, condition, _, thenBranch, _, hts, reads_condition hc hb,
      ihb _, .inr ⟨_, elseBranch, hafter, ihe rest helse, rfl⟩⟩
  | elseIf _ ih =>
    intro rest helse
    exact .inl (ih rest helse)
  | elseBlock _ ih =>
    intro rest _
    exact .inr (ih rest)
  | @block us es line l₁ _ ih =>
    intro rest
    have hclose : Reads (blockBody line (⟨.closeBrace, l₁⟩ :: rest)) [] rest :=
      (reads_blockBody rfl).mpr (.inl ⟨l₁, rfl, rfl⟩)
    have hbody := ih true _ (blockLoop line rest) (⟨.closeBrace, l₁⟩ :: rest) rfl rfl hclose
    exact reads_block.mpr ⟨line, _, es, by simp, hbody, rfl⟩
  | single h ih =>
    intro inBlock A loop rest es' hend helse hA
    obtain ⟨u, vs, rfl, hu⟩ := h.starts_statement
    exact loop.step hu (ih inBlock rest hend helse) hend hA
  | @several us seps vs e es h hs hne hst ih ihst =>
    intro inBlock A loop rest es' hend helse hA
    have hothers := loop.skip hs (ihst inBlock A loop rest es' hend helse hA)
    have hend' : endStatement inBlock (seps ++ (vs ++ rest)) = .ok () :=
      endStatement_separators hs fun h => absurd h hne
    have helse' : afterElse? (seps ++ (vs ++ rest)) = none := by
      apply afterElse?_separators hs
      obtain ⟨v, ws, rfl, hv⟩ := hst.starts_statements
      exact afterElse?_startsStatement hv
    obtain ⟨u, ws, rfl, hu⟩ := h.starts_statement
    simp only [List.append_assoc]
    exact loop.step hu (ih inBlock _ hend' helse') hend' hothers
  | empty hs =>
    intro inBlock A loop rest _ _ hA
    exact loop.skip hs hA
  | @filled seps us seps' es hs _ hs' ih =>
    intro inBlock A loop rest hend helse hA
    have hst := ih inBlock A loop (seps' ++ rest) [] (endStatement_separators hs' fun _ => hend)
      (afterElse?_separators hs' helse) (loop.skip hs' hA)
    rw [List.append_nil] at hst
    simp only [List.append_assoc]
    exact loop.skip hs hst

theorem program_complete (h : Derives ts (.body es)) : program ts = .ok es := by
  have hend : program [] = .ok [] := (program_eq_ok_iff rfl).mpr (.inl ⟨rfl, rfl⟩)
  have hp := read_of_derives h false _ programLoop [] rfl rfl hend
  rwa [List.append_nil] at hp

end

/-- The parser accepts exactly the programs of the grammar, and builds their trees. -/
theorem parse_eq_ok_iff (ts : List Located) (e : Expr) :
    parse ts = .ok e ↔ Grammar.Program ts e := by
  rw [parse_eq_ok_iff_program]
  constructor
  · intro h
    obtain ⟨es, hes, he⟩ := h
    exact ⟨es, program_sound hes, he⟩
  · intro h
    obtain ⟨es, hes, he⟩ := h
    exact ⟨es, program_complete hes, he⟩

end BoundedScript.Parser

theorem BoundedScript.Program.parse_eq_ok_iff_derives {source : String} {e : Expr} :
    Program.parse source = .ok e ↔
      ∃ us es, Token.scan source = .ok us ∧ Grammar.Derives us (.body es) ∧ e = .block es 1 := by
  unfold Program.parse
  rw [Parser.bind_eq_ok_iff]
  constructor
  · intro h
    obtain ⟨us, hus, he⟩ := h
    obtain ⟨es, hes, he⟩ := Parser.parse_eq_ok_iff_program.mp he
    exact ⟨us, es, hus, Parser.program_sound hes, he⟩
  · intro h
    obtain ⟨us, es, hus, hes, he⟩ := h
    exact ⟨us, hus, Parser.parse_eq_ok_iff_program.mpr ⟨es, Parser.program_complete hes, he⟩⟩
