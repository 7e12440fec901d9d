import BoundedScript.Parser.Statement

/-!
# The grammar of scripts

A derivation relates a run of tokens to the tree that it spells, one rule for each production.
Derivations know nothing of the order in which a parser tries its choices, of what it looks ahead at
or of what it leaves behind: they only cut a run of tokens into parts.

The rules also say which line each node stands on. A binary or unary node takes the line of its
operator, a literal or a variable its own, an assignment the line of its name or, in parentheses, of
the opening one, and every statement the line of the word or brace that opens it.
-/

namespace BoundedScript.Grammar

/-- The categories of expressions, from the loosest to the tightest. -/
inductive Category where
  | disjunction | conjunction | negation | comparison | sum | product | signed | primary
  deriving DecidableEq, Repr

/-- `Expression c us e` says that the tokens `us` spell the tree `e` as a phrase of category `c`.
Each category includes the next tighter one. The rules for binary operators have the looser
category on the left, so that chains associate to the left. -/
inductive Expression : Category → List Located → Expr → Prop
  | disjunction {us e} : Expression .conjunction us e → Expression .disjunction us e
  | or {us vs left right line} :
      Expression .disjunction us left → Expression .conjunction vs right →
      Expression .disjunction (us ++ ⟨.logical .or, line⟩ :: vs) (.logical .or left right line)
  | conjunction {us e} : Expression .negation us e → Expression .conjunction us e
  | and {us vs left right line} :
      Expression .conjunction us left → Expression .negation vs right →
      Expression .conjunction (us ++ ⟨.logical .and, line⟩ :: vs) (.logical .and left right line)
  | negation {us e} : Expression .comparison us e → Expression .negation us e
  | not {us e line} :
      Expression .negation us e →
      Expression .negation (⟨.negation, line⟩ :: us) (.unary .not e line)
  | comparison {us e} : Expression .sum us e → Expression .comparison us e
  | compare {op us vs left right line} :
      Expression .comparison us left → Expression .sum vs right →
      Expression .comparison (us ++ ⟨.comparison op, line⟩ :: vs) (.comparison op left right line)
  | sum {us e} : Expression .product us e → Expression .sum us e
  | add {op us vs left right line} :
      op = .add ∨ op = .sub → Expression .sum us left → Expression .product vs right →
      Expression .sum (us ++ ⟨.arithmetic op, line⟩ :: vs) (.arithmetic op left right line)
  | product {us e} : Expression .signed us e → Expression .product us e
  | multiply {op us vs left right line} :
      op = .mul ∨ op = .div ∨ op = .floorDiv ∨ op = .pow →
      Expression .product us left → Expression .signed vs right →
      Expression .product (us ++ ⟨.arithmetic op, line⟩ :: vs) (.arithmetic op left right line)
  | signed {us e} : Expression .primary us e → Expression .signed us e
  | minus {us e line} :
      Expression .signed us e →
      Expression .signed (⟨.arithmetic .sub, line⟩ :: us) (.unary .negate e line)
  | integer {n line} : Expression .primary [⟨.integer n, line⟩] (.literal (.integer n) line)
  | boolean {b line} : Expression .primary [⟨.boolean b, line⟩] (.literal (.boolean b) line)
  | var {name line} : Expression .primary [⟨.identifier name, line⟩] (.var name line)
  | assignment {name us e line l₁ l₂ l₃} :
      Expression .disjunction us e →
      Expression .primary
        (⟨.openParen, line⟩ :: ⟨.identifier name, l₁⟩ :: ⟨.assign, l₂⟩ :: us ++ [⟨.closeParen, l₃⟩])
        (.assignment name e line)
  | group {us e line l₁} :
      Expression .disjunction us e →
      Expression .primary (⟨.openParen, line⟩ :: us ++ [⟨.closeParen, l₁⟩]) e

/-- Line breaks and semicolons only. -/
def Separators (us : List Located) : Prop := ∀ u ∈ us, u.token = .newline ∨ u.token = .semicolon

/-- Line breaks only. -/
def Breaks (us : List Located) : Prop := ∀ u ∈ us, u.token = .newline

/-- `Updates sign op` says that an update with this sign applies the operation `op`: `+=` adds, `-=`
subtracts, `*=` multiplies and `/=` divides. -/
inductive Updates : UpdateOp → ArithmeticOp → Prop
  | sum : Updates .add .add
  | difference : Updates .sub .sub
  | product : Updates .mul .mul
  | quotient : Updates .div .div

/-- What a run of tokens can spell on the level of statements. -/
inductive Phrase where
  | statement (e : Expr)
  /-- A conditional with all that belongs to its `else`. -/
  | conditional (e : Expr)
  /-- What may stand after an `else`. -/
  | branch (e : Expr)
  | block (e : Expr)
  /-- One or more statements, parted by separators. -/
  | statements (es : List Expr)
  /-- What stands between braces, or makes up a program. -/
  | body (es : List Expr)

/-- `Derives us p` says that the tokens `us` spell the phrase `p`. -/
inductive Derives : List Located → Phrase → Prop
  | conditional {us e} : Derives us (.conditional e) → Derives us (.statement e)
  | whileLoop {us vs condition body line} :
      Expression .disjunction us condition → Derives vs (.block body) →
      Derives (⟨.keyword .whileWord, line⟩ :: us ++ vs)
        (.statement (.whileLoop condition body line))
  | forLoop {counter us vs ws first last body line l₁ l₂ l₃} :
      Expression .disjunction us first → Expression .disjunction vs last →
      Derives ws (.block body) →
      Derives
        (⟨.keyword .forWord, line⟩ :: ⟨.identifier counter, l₁⟩ :: ⟨.keyword .inWord, l₂⟩ ::
          us ++ ⟨.keyword .toWord, l₃⟩ :: vs ++ ws)
        (.statement (.forLoop counter first last body line))
  | assignment {name us e line l₁} :
      Expression .disjunction us e →
      Derives (⟨.identifier name, line⟩ :: ⟨.assign, l₁⟩ :: us)
        (.statement (.assignment name e line))
  | update {sign op name us e line l₁} :
      Updates sign op → Expression .disjunction us e →
      Derives (⟨.identifier name, line⟩ :: ⟨.update sign, l₁⟩ :: us)
        (.statement (.assignment name (.arithmetic op (.var name line) e line) line))
  | expression {us e} : Expression .disjunction us e → Derives us (.statement e)
  | ifThen {us vs condition thenBranch line} :
      Expression .disjunction us condition → Derives vs (.block thenBranch) →
      Derives (⟨.keyword .ifWord, line⟩ :: us ++ vs)
        (.conditional (.conditional condition thenBranch none line))
  | ifElse {us vs breaks ws condition thenBranch elseBranch line l₁} :
      Expression .disjunction us condition → Derives vs (.block thenBranch) →
      Breaks breaks → Derives ws (.branch elseBranch) →
      Derives
        (⟨.keyword .ifWord, line⟩ :: us ++ vs ++ breaks ++ ⟨.keyword .elseWord, l₁⟩ :: ws)
        (.conditional (.conditional condition thenBranch (some elseBranch) line))
  | elseIf {us e} : Derives us (.conditional e) → Derives us (.branch e)
  | elseBlock {us e} : Derives us (.block e) → Derives us (.branch e)
  | block {us es line l₁} :
      Derives us (.body es) →
      Derives (⟨.openBrace, line⟩ :: us ++ [⟨.closeBrace, l₁⟩]) (.block (.block es line))
  | single {us e} : Derives us (.statement e) → Derives us (.statements [e])
  | several {us seps vs e es} :
      Derives us (.statement e) → Separators seps → seps ≠ [] → Derives vs (.statements es) →
      Derives (us ++ seps ++ vs) (.statements (e :: es))
  | empty {seps} : Separators seps → Derives seps (.body [])
  | filled {seps us seps' es} :
      Separators seps → Derives us (.statements es) → Separators seps' →
      Derives (seps ++ us ++ seps') (.body es)

/-- `Program us e` says that the tokens `us` are a program and `e` is its tree. -/
def Program (us : List Located) (e : Expr) : Prop := ∃ es, Derives us (.body es) ∧ e = .block es 1

theorem updates_iff {sign : UpdateOp} {op : ArithmeticOp} :
    Updates sign op ↔ op = sign.operation := by
  constructor
  · rintro (_ | _ | _ | _) <;> rfl
  · rintro rfl
    cases sign <;> constructor

/-- Every category includes the primary expressions. -/
theorem Expression.of_primary {us : List Located} {e : Expr} (h : Expression .primary us e)
    (c : Category) : Expression c us e := by
  have hsigned := Expression.signed h
  have hsum := Expression.sum (.product hsigned)
  have hnegation := Expression.negation (.comparison hsum)
  cases c with
  | disjunction => exact .disjunction (.conjunction hnegation)
  | conjunction => exact .conjunction hnegation
  | negation => exact hnegation
  | comparison => exact .comparison hsum
  | sum => exact hsum
  | product => exact .product hsigned
  | signed => exact hsigned
  | primary => exact h

theorem Expression.of_comparison {us : List Located} {e : Expr} (h : Expression .comparison us e) :
    Expression .disjunction us e :=
  .disjunction (.conjunction (.negation h))

/-- Between primary expressions the levels of operators make no difference. -/
theorem Expression.of_operation {us vs : List Located} {left right : Expr} {line : Nat}
    (op : ArithmeticOp) (hl : Expression .primary us left) (hr : Expression .primary vs right) :
    Expression .sum (us ++ ⟨.arithmetic op, line⟩ :: vs) (.arithmetic op left right line) := by
  cases op with
  | add => exact .add (.inl rfl) (hl.of_primary _) (hr.of_primary _)
  | sub => exact .add (.inr rfl) (hl.of_primary _) (hr.of_primary _)
  | mul => exact .sum (.multiply (.inl rfl) (hl.of_primary _) (hr.of_primary _))
  | div => exact .sum (.multiply (.inr (.inl rfl)) (hl.of_primary _) (hr.of_primary _))
  | floorDiv => exact .sum (.multiply (.inr (.inr (.inl rfl))) (hl.of_primary _) (hr.of_primary _))
  | pow => exact .sum (.multiply (.inr (.inr (.inr rfl))) (hl.of_primary _) (hr.of_primary _))

/-! ### First tokens -/

/-- The tokens that a phrase of the category can start with. -/
def Category.starts (c : Category) : Token → Bool
  | .integer _ | .boolean _ | .identifier _ | .openParen => true
  | .arithmetic .sub => c != .primary
  | .negation => c == .disjunction || c == .conjunction || c == .negation
  | _ => false

/-- The tokens that a statement can start with. -/
def startsStatement : Token → Bool
  | .keyword .ifWord | .keyword .whileWord | .keyword .forWord => true
  | t => Category.disjunction.starts t

theorem Expression.starts {c : Category} {us : List Located} {e : Expr} (h : Expression c us e) :
    ∃ u vs, us = u :: vs ∧ c.starts u.token = true := by
  induction h with
  | disjunction _ ih | conjunction _ ih | negation _ ih | comparison _ ih | sum _ ih | product _ ih
  | signed _ ih =>
    obtain ⟨⟨t, line⟩, vs, rfl, ht⟩ := ih
    refine ⟨⟨t, line⟩, vs, rfl, ?_⟩
    revert ht
    unfold Category.starts
    split <;> simp
  | or _ _ ih | and _ _ ih | compare _ _ ih | add _ _ _ ih | multiply _ _ _ ih =>
    obtain ⟨u, vs, rfl, ht⟩ := ih
    exact ⟨u, _, rfl, ht⟩
  | not | minus | integer | boolean | var | assignment | group => exact ⟨_, _, rfl, rfl⟩

section

variable {us vs seps : List Located} {e : Expr} {es fs : List Expr}

theorem Derives.starts_conditional (h : Derives us (.conditional e)) :
    ∃ line vs, us = ⟨.keyword .ifWord, line⟩ :: vs := by
  cases h <;> exact ⟨_, _, rfl⟩

theorem Derives.starts_block (h : Derives us (.block e)) :
    ∃ line vs, us = ⟨.openBrace, line⟩ :: vs := by
  cases h
  exact ⟨_, _, rfl⟩

theorem Derives.starts_statement (h : Derives us (.statement e)) :
    ∃ u vs, us = u :: vs ∧ startsStatement u.token = true := by
  cases h with
  | conditional h =>
    obtain ⟨line, vs, rfl⟩ := h.starts_conditional
    exact ⟨_, vs, rfl, rfl⟩
  | whileLoop | forLoop | assignment | update => exact ⟨_, _, rfl, rfl⟩
  | expression h =>
    obtain ⟨u, vs, rfl, ht⟩ := h.starts
    refine ⟨u, vs, rfl, ?_⟩
    unfold startsStatement
    split
    · rfl
    · rfl
    · rfl
    · exact ht

theorem Derives.starts_statements (h : Derives us (.statements es)) :
    ∃ u vs, us = u :: vs ∧ startsStatement u.token = true := by
  cases h with
  | single h => exact h.starts_statement
  | several h _ _ _ =>
    obtain ⟨u, vs, rfl, ht⟩ := h.starts_statement
    exact ⟨u, _, rfl, ht⟩

theorem Derives.starts_body (h : Derives us (.body es)) :
    ∀ u ∈ us.head?,
      (u.token = .newline ∨ u.token = .semicolon) ∨ startsStatement u.token = true := by
  intro u hu
  obtain ⟨vs, rfl⟩ := List.head?_eq_some_iff.mp hu
  generalize hw : u :: vs = ws at h
  cases h with
  | empty hs => exact .inl (hs u (by simp [← hw]))
  | @filled seps us seps' _ hs hst hs' =>
    cases seps with
    | nil =>
      obtain ⟨u', vs', rfl, ht⟩ := hst.starts_statements
      cases hw
      exact .inr ht
    | cons s seps =>
      cases hw
      exact .inl (hs u (by simp))

/-! ### Joining bodies -/

theorem Separators.nil : Separators [] := by
  intro u hu
  cases hu

theorem Separators.newline (line : Nat) : Separators [⟨.newline, line⟩] := by
  intro u hu
  rw [List.mem_singleton.mp hu]
  exact .inl rfl

theorem Separators.append {seps' : List Located} (h : Separators seps) (h' : Separators seps') :
    Separators (seps ++ seps') := by
  intro u hu
  rcases List.mem_append.mp hu with hu | hu
  · exact h u hu
  · exact h' u hu

theorem not_separator_of_startsStatement {t : Token} (h : startsStatement t = true) :
    ¬ (t = .newline ∨ t = .semicolon) := by
  rintro (rfl | rfl) <;> cases h

theorem Derives.separators_append (hs : Separators seps) (h : Derives us (.body es)) :
    Derives (seps ++ us) (.body es) := by
  cases h with
  | empty h => exact .empty (hs.append h)
  | filled h hst h' =>
    simp only [← List.append_assoc]
    exact .filled (hs.append h) hst h'

/-- A statement can be put in front of a body that is empty or starts with a separator. -/
theorem Derives.cons_body (h : Derives us (.statement e)) (hb : Derives vs (.body es))
    (hv : ∀ v ∈ vs.head?, v.token = .newline ∨ v.token = .semicolon) :
    Derives (us ++ vs) (.body (e :: es)) := by
  cases hb with
  | empty hs => exact .filled Separators.nil (.single h) hs
  | @filled seps ws seps' _ hs hst hs' =>
    by_cases hne : seps = []
    · obtain ⟨u, rest, rfl, hu⟩ := hst.starts_statements
      subst hne
      exact absurd (hv u rfl) (not_separator_of_startsStatement hu)
    · have hb := Derives.filled Separators.nil (.several h hs hne hst) hs'
      simpa using hb

theorem Derives.statements_append {p : Phrase} (h : Derives us p) (hp : p = .statements es)
    (hs : Separators seps) (hne : seps ≠ []) (h' : Derives vs (.statements fs)) :
    Derives (us ++ seps ++ vs) (.statements (es ++ fs)) := by
  induction h generalizing es with
  | single he =>
    cases hp
    exact .several he hs hne h'
  | several he hs₁ hne₁ _ _ ih =>
    cases hp
    have hrest := Derives.several he hs₁ hne₁ (ih rfl)
    simpa using hrest
  | _ => cases hp

/-- Two bodies with a separator between them are one body. -/
theorem Derives.body_append (h : Derives us (.body es)) (hs : Separators seps) (hne : seps ≠ [])
    (h' : Derives vs (.body fs)) : Derives (us ++ seps ++ vs) (.body (es ++ fs)) := by
  cases h with
  | empty h => exact h'.separators_append (h.append hs)
  | @filled seps₁ us seps₂ _ h₁ hst h₂ =>
    cases h' with
    | empty h' =>
      have hbody := Derives.filled h₁ hst (h₂.append (hs.append h'))
      simpa using hbody
    | @filled seps₃ vs seps₄ _ h₃ hst' h₄ =>
      have hjoin : seps₂ ++ seps ++ seps₃ ≠ [] := by simp [hne]
      have hbody := Derives.filled h₁
        (hst.statements_append rfl ((h₂.append hs).append h₃) hjoin hst') h₄
      simpa using hbody

end

end BoundedScript.Grammar
