import BoundedScript.Proofs.Lines
import BoundedScript.Proofs.Token.Writing

/-!
# Every well-formed tree has a source

A tree is written out with parentheses around every operation and every assignment, a semicolon
after every statement and a blank after every token. Written this way no token runs into the next
one and no operator takes an operand from another, so reading the text gives the tree back. All of
it stands on one line, which is why only the lines of the tree are lost.
-/

namespace BoundedScript

/-! ### Trees as tokens -/

/-- The token of a sign. -/
def UnaryOp.token : UnaryOp → Token
  | .not => .negation
  | .negate => .arithmetic .sub

namespace Expr

mutual

/-- The tree written out. -/
def tokens : Expr → List Token
  | literal (.integer n) _ => [.integer n]
  | literal (.boolean b) _ => [.boolean b]
  | var name _ => [.identifier name]
  | arithmetic op left right _ =>
    .openParen :: (left.tokens ++ .arithmetic op :: right.tokens) ++ [.closeParen]
  | comparison op left right _ =>
    .openParen :: (left.tokens ++ .comparison op :: right.tokens) ++ [.closeParen]
  | logical op left right _ =>
    .openParen :: (left.tokens ++ .logical op :: right.tokens) ++ [.closeParen]
  | unary op operand _ => .openParen :: (op.token :: operand.tokens) ++ [.closeParen]
  | assignment name value _ =>
    .openParen :: .identifier name :: .assign :: value.tokens ++ [.closeParen]
  | conditional condition thenBranch elseBranch _ =>
    .keyword .ifWord :: condition.tokens ++ thenBranch.tokens ++
      match elseBranch with
      | some branch => .keyword .elseWord :: branch.tokens
      | none => []
  | whileLoop condition body _ => .keyword .whileWord :: condition.tokens ++ body.tokens
  | forLoop counter first last body _ =>
    .keyword .forWord :: .identifier counter :: .keyword .inWord :: first.tokens ++
      .keyword .toWord :: last.tokens ++ body.tokens
  | block statements _ => .openBrace :: tokensAll statements ++ [.closeBrace]

def tokensAll : List Expr → List Token
  | [] => []
  | e :: es => e.tokens ++ [.semicolon] ++ tokensAll es

end

theorem writable_tokensAll {es : List Expr} (h : ∀ e ∈ es, ∀ t ∈ e.tokens, t.Writable) :
    ∀ t ∈ tokensAll es, t.Writable := by
  induction es with
  | nil => simp [tokensAll]
  | cons e es ih =>
    rw [List.forall_mem_cons] at h
    simp only [tokensAll, List.forall_mem_append, List.forall_mem_singleton]
    exact ⟨⟨h.1, Token.writable_of_isFixed rfl⟩, ih h.2⟩

/-- Names and literals of a regular tree can be spelled, and everything else has a spelling. -/
theorem writable_tokens {e : Expr} (h : e.Regular) : ∀ t ∈ e.tokens, t.Writable := by
  have hfixed {t : Token} (ht : (t.isFixed && t != .newline) = true) : t.Writable :=
    Token.writable_of_isFixed ht
  induction e with
  | literal value line =>
    have hnode := (regular_iff.mp h).1
    cases value with
    | integer n => simpa [tokens] using Token.writable_integer hnode
    | boolean b => simpa [tokens] using hfixed (t := .boolean b) rfl
  | var name line => simpa [tokens] using Token.writable_identifier (regular_iff.mp h).1
  | arithmetic op left right line ihl ihr | comparison op left right line ihl ihr
  | logical op left right line ihl ihr =>
    obtain ⟨hl, hr⟩ : left.Regular ∧ right.Regular := by
      simpa [children] using (regular_iff.mp h).2
    simp only [tokens, List.forall_mem_append, List.forall_mem_cons]
    exact ⟨⟨hfixed rfl, ihl hl, hfixed rfl, ihr hr⟩, hfixed rfl,
      List.forall_mem_nil _⟩
  | unary op operand line ih =>
    have ho : operand.Regular := by simpa [children] using (regular_iff.mp h).2
    have hop : op.token.Writable := by cases op <;> exact hfixed rfl
    simp only [tokens, List.forall_mem_append, List.forall_mem_cons]
    exact ⟨⟨hfixed rfl, hop, ih ho⟩, hfixed rfl, List.forall_mem_nil _⟩
  | assignment name value line ih =>
    have hv : value.Regular := by simpa [children] using (regular_iff.mp h).2
    have hname := Token.writable_identifier (regular_iff.mp h).1.1
    simp only [tokens, List.forall_mem_append, List.forall_mem_cons]
    exact ⟨⟨hfixed rfl, hname, hfixed rfl, ih hv⟩, hfixed rfl,
      List.forall_mem_nil _⟩
  | conditional condition thenBranch elseBranch line ihc iht ihe =>
    obtain ⟨hc, ht, he⟩ : condition.Regular ∧ thenBranch.Regular ∧
        ∀ branch ∈ elseBranch, branch.Regular := by
      simpa [children] using (regular_iff.mp h).2
    cases elseBranch with
    | none =>
      simp only [tokens, List.forall_mem_append, List.forall_mem_cons]
      exact ⟨⟨⟨hfixed rfl, ihc hc⟩, iht ht⟩, List.forall_mem_nil _⟩
    | some branch =>
      simp only [tokens, List.forall_mem_append, List.forall_mem_cons]
      exact ⟨⟨⟨hfixed rfl, ihc hc⟩, iht ht⟩, hfixed rfl,
        ihe branch rfl (he branch rfl)⟩
  | whileLoop condition body line ihc ihb =>
    obtain ⟨hc, hb⟩ : condition.Regular ∧ body.Regular := by
      simpa [children] using (regular_iff.mp h).2
    simp only [tokens, List.forall_mem_append, List.forall_mem_cons]
    exact ⟨⟨hfixed rfl, ihc hc⟩, ihb hb⟩
  | forLoop counter first last body line ihf ihl ihb =>
    obtain ⟨hf, hl, hb⟩ : first.Regular ∧ last.Regular ∧ body.Regular := by
      simpa [children] using (regular_iff.mp h).2
    have hname := Token.writable_identifier (regular_iff.mp h).1.1
    simp only [tokens, List.forall_mem_append, List.forall_mem_cons]
    exact ⟨⟨⟨hfixed rfl, hname, hfixed rfl, ihf hf⟩, hfixed rfl, ihl hl⟩, ihb hb⟩
  | block statements line ih =>
    have hes := writable_tokensAll fun e he => ih e he ((regular_iff.mp h).2 e he)
    simp only [tokens, List.forall_mem_append, List.forall_mem_cons]
    exact ⟨⟨hfixed rfl, hes⟩, hfixed rfl, List.forall_mem_nil _⟩

end Expr

/-! ### Tokens as trees -/

namespace Grammar

theorem Separators.semicolon (line : Nat) : Separators [⟨.semicolon, line⟩] := by
  intro u hu
  rw [List.mem_singleton.mp hu]
  exact .inr rfl

end Grammar

namespace Expr

open Grammar

variable {e : Expr}

/-- An expression is written as a primary one: a single token or something in parentheses. -/
theorem expression_tokens (he : e.isExpression = true) (h : e.Regular) :
    Expression .primary (e.tokens.map (⟨·, 1⟩)) (e.mapLines fun _ => 1) := by
  induction e with
  | literal value line =>
    cases value with
    | integer n => exact .integer
    | boolean b => exact .boolean
  | var name line => exact .var
  | arithmetic op left right line ihl ihr =>
    obtain ⟨hnode, hbelow⟩ := regular_iff.mp h
    have hl := ihl hnode.1 (hbelow left (by simp [children]))
    have hr := ihr hnode.2 (hbelow right (by simp [children]))
    simp only [tokens, mapLines, List.map_append, List.map_cons, List.map_nil]
    exact .group (.of_comparison (.comparison (.of_operation op hl hr)))
  | comparison op left right line ihl ihr =>
    obtain ⟨hnode, hbelow⟩ := regular_iff.mp h
    have hl := ihl hnode.1 (hbelow left (by simp [children]))
    have hr := ihr hnode.2 (hbelow right (by simp [children]))
    simp only [tokens, mapLines, List.map_append, List.map_cons, List.map_nil]
    exact .group (.of_comparison (.compare (hl.of_primary _) (hr.of_primary _)))
  | logical op left right line ihl ihr =>
    obtain ⟨hnode, hbelow⟩ := regular_iff.mp h
    have hl := ihl hnode.1 (hbelow left (by simp [children]))
    have hr := ihr hnode.2 (hbelow right (by simp [children]))
    simp only [tokens, mapLines, List.map_append, List.map_cons, List.map_nil]
    cases op with
    | and => exact .group (.disjunction (.and (hl.of_primary _) (hr.of_primary _)))
    | or => exact .group (.or (hl.of_primary _) (hr.of_primary _))
  | unary op operand line ih =>
    obtain ⟨hnode, hbelow⟩ := regular_iff.mp h
    have ho := ih hnode (hbelow operand (by simp [children]))
    simp only [tokens, mapLines, List.map_append, List.map_cons, List.map_nil]
    cases op with
    | not => exact .group (.disjunction (.conjunction (.not (ho.of_primary _))))
    | negate =>
      exact .group (.of_comparison (.comparison (.sum (.product (.minus (ho.of_primary _))))))
  | assignment name value line ih =>
    obtain ⟨hnode, hbelow⟩ := regular_iff.mp h
    have hv := ih hnode.2 (hbelow value (by simp [children]))
    simp only [tokens, mapLines, List.map_append, List.map_cons, List.map_nil]
    exact .assignment (hv.of_primary _)
  | conditional | whileLoop | forLoop | block => cases he

theorem derives_tokensAll {es : List Expr}
    (h : ∀ e ∈ es, Derives (e.tokens.map (⟨·, 1⟩)) (.statement (e.mapLines fun _ => 1))) :
    Derives ((tokensAll es).map (⟨·, 1⟩)) (.body (es.map (mapLines fun _ => 1))) := by
  induction es with
  | nil =>
    rw [tokensAll]
    exact .empty .nil
  | cons e es ih =>
    rw [List.forall_mem_cons] at h
    rw [tokensAll, List.map_append, List.map_append, List.append_assoc, List.map_cons]
    exact h.1.cons_body ((ih h.2).separators_append (.semicolon 1)) (by simp)

/-- What a regular tree is written as spells the tree, as a phrase of its kind. -/
theorem derives_tokens (h : e.Regular) :
    (e.isStatement = true →
      Derives (e.tokens.map (⟨·, 1⟩)) (.statement (e.mapLines fun _ => 1))) ∧
    (e.isConditional = true →
      Derives (e.tokens.map (⟨·, 1⟩)) (.conditional (e.mapLines fun _ => 1))) ∧
    (e.isBlock = true → Derives (e.tokens.map (⟨·, 1⟩)) (.block (e.mapLines fun _ => 1))) := by
  induction e with
  | literal | var | arithmetic | comparison | logical | unary | assignment =>
    exact ⟨fun _ => .expression ((expression_tokens rfl h).of_primary _),
      (absurd · Bool.false_ne_true), (absurd · Bool.false_ne_true)⟩
  | conditional condition thenBranch elseBranch line _ iht ihe =>
    obtain ⟨⟨hc, ht, he⟩, hbelow⟩ := regular_iff.mp h
    have hcondition := expression_tokens hc (hbelow condition (by simp [children]))
    have hthen := (iht (hbelow thenBranch (by simp [children]))).2.2 ht
    have hconditional : Derives ((conditional condition thenBranch elseBranch line).tokens.map
        (⟨·, 1⟩)) (.conditional (mapLines (fun _ => 1)
          (conditional condition thenBranch elseBranch line))) := by
      cases elseBranch with
      | none =>
        simp only [tokens, mapLines, List.map_append, List.map_cons, List.append_nil]
        exact .ifThen (hcondition.of_primary _) hthen
      | some branch =>
        obtain ⟨-, hif, hblock⟩ := ihe branch rfl (hbelow branch (by simp [children]))
        have hbranch : Derives (branch.tokens.map (⟨·, 1⟩))
            (.branch (branch.mapLines fun _ => 1)) :=
          (he branch rfl).elim (fun hb => .elseBlock (hblock hb)) fun hi => .elseIf (hif hi)
        have hbreaks : Breaks [] := by simp [Breaks]
        have helse : Derives (⟨.keyword .ifWord, 1⟩ :: _ ++ _ ++ [] ++ ⟨.keyword .elseWord, 1⟩ :: _)
            (.conditional _) := .ifElse (hcondition.of_primary _) hthen hbreaks hbranch
        simpa [tokens, mapLines] using helse
    exact ⟨fun _ => .conditional hconditional, fun _ => hconditional,
      (absurd · Bool.false_ne_true)⟩
  | whileLoop condition body line _ ihb =>
    obtain ⟨⟨hc, hb⟩, hbelow⟩ := regular_iff.mp h
    have hcondition := expression_tokens hc (hbelow condition (by simp [children]))
    have hbody := (ihb (hbelow body (by simp [children]))).2.2 hb
    refine ⟨fun _ => ?_, (absurd · Bool.false_ne_true), (absurd · Bool.false_ne_true)⟩
    simp only [tokens, mapLines, List.map_append, List.map_cons]
    exact .whileLoop (hcondition.of_primary _) hbody
  | forLoop counter first last body line _ _ ihb =>
    obtain ⟨⟨-, hf, hl, hb⟩, hbelow⟩ := regular_iff.mp h
    have hfirst := expression_tokens hf (hbelow first (by simp [children]))
    have hlast := expression_tokens hl (hbelow last (by simp [children]))
    have hbody := (ihb (hbelow body (by simp [children]))).2.2 hb
    refine ⟨fun _ => ?_, (absurd · Bool.false_ne_true), (absurd · Bool.false_ne_true)⟩
    simp only [tokens, mapLines, List.map_append, List.map_cons]
    exact .forLoop (hfirst.of_primary _) (hlast.of_primary _) hbody
  | block statements line ih =>
    obtain ⟨hes, hbelow⟩ := regular_iff.mp h
    have hbody := derives_tokensAll fun e he => (ih e he (hbelow e he)).1 (hes e he)
    refine ⟨(absurd · Bool.false_ne_true), (absurd · Bool.false_ne_true), fun _ => ?_⟩
    simp only [tokens, mapLines, mapLinesAll_eq_map, List.map_append, List.map_cons, List.map_nil]
    exact .block hbody

end Expr

theorem Program.parse_written {es : List Expr} {line : Nat} (h : (Expr.block es line).Regular) :
    Program.parse (.ofList (Token.written (Expr.tokensAll es))) =
      .ok ((Expr.block es line).mapLines fun _ => 1) := by
  obtain ⟨hes, hbelow⟩ := Expr.regular_iff.mp h
  have hscan := Token.scan_written
    (Expr.writable_tokensAll fun e he => Expr.writable_tokens (hbelow e he))
  have hbody := Expr.derives_tokensAll fun e he => (Expr.derives_tokens (hbelow e he)).1 (hes e he)
  rw [Expr.mapLines, Expr.mapLinesAll_eq_map]
  exact Program.parse_eq_ok_iff_derives.mpr ⟨_, _, hscan, hbody, rfl⟩

/-- The trees that sources produce are the well-formed ones: every source gives one, and for every
one there is a source that gives it with all its lines set to 1. -/
theorem parsed_trees_are_well_formed_trees :
    (∀ source t, Program.parse source = .ok t → t.WellFormed) ∧
    ∀ t : Expr, t.WellFormed → ∃ source, Program.parse source = .ok (t.mapLines fun _ => 1) := by
  constructor
  · intro source t h
    exact Program.wellFormed_of_parse h
  · intro t h
    obtain ⟨hblock, hregular⟩ := h
    cases t with
    | block es line => exact ⟨_, Program.parse_written hregular⟩
    | _ => cases hblock

/-- An operand that is an assignment, a sum below a product and a chain of conditionals. -/
theorem nested_tree_is_parsed_tree :
    let one : Expr := .literal (.integer ⟨1, by decide, by decide⟩) 7
    let product : Expr := .arithmetic .mul (.arithmetic .add one (.var "x" 7) 7)
      (.assignment "to_" (.unary .negate one 8) 8) 7
    let t : Expr := .block [.conditional (.var "x" 2) (.block [] 3)
      (some (.conditional product (.block [product] 4) none 5)) 2] 0
    t.WellFormed ∧ ∃ source t', Program.parse source = .ok t' ∧ t' = t.mapLines (fun _ => 1) ∧
      t'.WellFormed := by
  intro one product t
  have ht : t.WellFormed := by decide
  obtain ⟨source, hparse⟩ := parsed_trees_are_well_formed_trees.2 t ht
  exact ⟨ht, source, _, hparse, rfl, parsed_trees_are_well_formed_trees.1 source _ hparse⟩

end BoundedScript
