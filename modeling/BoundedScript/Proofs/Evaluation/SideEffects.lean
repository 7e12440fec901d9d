import BoundedScript.Proofs.Evaluation.Expressions
import BoundedScript.Proofs.Evaluation.MissingValue

/-!
# Expressions with a value have no effect

An assignment is the only expression that changes a variable, and it has no value. Where a value is
needed it cannot be evaluated without failing, so an operand that has its value went past every
assignment in it: each stands to the right of an `and` or an `or` that was settled on its left. In
the conditions, bounds and right-hand sides of a program a value is always needed.
-/

namespace BoundedScript

open EvalM

namespace Grammar

open BoundedScript.Expr

/-- Whatever the names and literals are, an expression of the grammar is made of expressions. -/
theorem Expression.isInline {c : Category} {us : List Located} {e : Expr}
    (h : Expression c us e) : e.IsInline := by
  induction h with
  | disjunction _ ih | conjunction _ ih | negation _ ih | comparison _ ih | sum _ ih | product _ ih
  | signed _ ih | group _ ih => exact ih
  | or _ _ ihl ihr | and _ _ ihl ihr | compare _ _ ihl ihr | add _ _ _ ihl ihr
  | multiply _ _ _ ihl ihr =>
    apply isInline_iff.mpr
    simp [isExpression, children, ihl, ihr]
  | not _ ih | minus _ ih | assignment _ ih =>
    apply isInline_iff.mpr
    simp [isExpression, children, ih]
  | integer | boolean | var =>
    apply isInline_iff.mpr
    simp [isExpression, children]

end Grammar

namespace EvalM

variable {α : Type} {line : Nat} {x : EvalM (Option Value)} {env env' : Environment}

theorem exists_of_valueOf_bind_ok {f : Value → EvalM α} {a : α}
    (h : (valueOf line x >>= f).outcome env = (.ok a, env')) :
    ∃ v mid, x.outcome env = (.ok (some v), mid) ∧ (f v).outcome mid = (.ok a, env') := by
  obtain ⟨v, mid, hx, h⟩ := exists_of_outcome_bind_ok h
  exact ⟨v, mid, outcome_of_valueOf_ok hx, h⟩

theorem exists_of_truthOf_bind_ok {f : Bool → EvalM α} {a : α}
    (h : (truthOf line x >>= f).outcome env = (.ok a, env')) :
    ∃ b mid, x.outcome env = (.ok (some (.boolean b)), mid) ∧
      (f b).outcome mid = (.ok a, env') := by
  rw [truthOf, bind_assoc] at h
  obtain ⟨v, mid, hx, h⟩ := exists_of_valueOf_bind_ok h
  cases v with
  | boolean b => exact ⟨b, mid, hx, h⟩
  | integer | real => cases h

end EvalM

namespace Expr

variable {limit : Nat} {e : Expr} {env env' : Environment} {v : Value}

/-- Evaluating the tree in `env` skips all assignments in it: each is in the right operand of an
`and` or an `or` whose left operand settles the result. -/
def SkipsAssignments (limit : Nat) (env : Environment) : Expr → Prop
  | literal .. | var .. => True
  | arithmetic _ left right _ | comparison _ left right _ =>
    left.SkipsAssignments limit env ∧ right.SkipsAssignments limit env
  | logical op left right _ =>
    left.SkipsAssignments limit env ∧
      ((left.eval limit).outcome env = (.ok (some (.boolean op.decisive)), env) ∨
        right.SkipsAssignments limit env)
  | unary _ operand _ => operand.SkipsAssignments limit env
  | assignment .. | conditional .. | whileLoop .. | forLoop .. | block .. => False

theorem eq_of_outcome_value (h : e.IsInline)
    (hrun : (e.eval limit).outcome env = (.ok (some v), env')) : env' = env := by
  have hvalue : (valueOf 0 (e.eval limit)).outcome env = (.ok v, env') := by
    rw [valueOf, outcome_bind_of_ok hrun]
    rfl
  exact (tidy_valueOf_eval h 0).value hvalue

theorem skipsAssignments_of_value (h : e.IsInline)
    (hrun : (e.eval limit).outcome env = (.ok (some v), env')) : e.SkipsAssignments limit env := by
  induction e generalizing v env' with
  | literal | var => trivial
  | arithmetic op left right line ihl ihr | comparison op left right line ihl ihr =>
    obtain ⟨hl, hr⟩ : left.IsInline ∧ right.IsInline := by simpa [children] using h.below
    rw [eval] at hrun
    obtain ⟨x, mid, hx, hrest⟩ := exists_of_valueOf_bind_ok hrun
    obtain rfl := eq_of_outcome_value hl hx
    obtain ⟨y, mid', hy, -⟩ := exists_of_valueOf_bind_ok hrest
    exact ⟨ihl hl hx, ihr hr hy⟩
  | logical op left right line ihl ihr =>
    obtain ⟨hl, hr⟩ : left.IsInline ∧ right.IsInline := by simpa [children] using h.below
    rw [eval] at hrun
    obtain ⟨b, mid, hb, hrest⟩ := exists_of_truthOf_bind_ok hrun
    obtain rfl := eq_of_outcome_value hl hb
    by_cases hdecisive : b = op.decisive
    · exact ⟨ihl hl hb, .inl (hdecisive ▸ hb)⟩
    · rw [if_neg hdecisive] at hrest
      obtain ⟨c, mid', hc, -⟩ := exists_of_truthOf_bind_ok hrest
      exact ⟨ihl hl hb, .inr (ihr hr hc)⟩
  | unary op operand line ih =>
    have ho : operand.IsInline := by simpa [children] using h.below
    rw [eval] at hrun
    obtain ⟨x, mid, hx, -⟩ := exists_of_valueOf_bind_ok hrun
    exact ih ho hx
  | assignment name value line ih =>
    rw [eval] at hrun
    obtain ⟨x, mid, hx, hrun⟩ := exists_of_valueOf_bind_ok hrun
    cases hrun
  | conditional | whileLoop | forLoop | block => cases h _ (self_mem_nodes _)

theorem assigns_of_no_value (h : e.IsInline)
    (hrun : (e.eval limit).outcome env = (.ok none, env')) : e.Assigns limit env env' := by
  cases e with
  | assignment name value line =>
    have hv : value.IsInline := by simpa [children] using h.below
    rw [eval] at hrun
    obtain ⟨v, mid, hvalue, hrest⟩ := exists_of_valueOf_bind_ok hrun
    obtain rfl := eq_of_outcome_value hv hvalue
    cases hrest
    exact ⟨name, value, line, v, rfl, hvalue, rfl⟩
  | literal | var | arithmetic | comparison | logical | unary =>
    exact absurd hrun (givesValue_eval rfl env env')
  | conditional | whileLoop | forLoop | block => cases h _ (self_mem_nodes _)

theorem isExpression_of_mem_operands {node : Expr} (h : node.FitsParts) :
    ∀ operand ∈ node.operands, operand.isExpression = true := by
  cases node with
  | literal | var | block => simp [operands]
  | arithmetic | comparison | logical | unary => simpa [operands, FitsParts] using h
  | assignment => simpa [operands] using h.2
  | conditional | whileLoop => simpa [operands] using h.1
  | forLoop =>
    obtain ⟨-, hfirst, hlast, -⟩ := h
    simp [operands, hfirst, hlast]

/-- Where a node of a program needs a value there is an expression. -/
theorem isInline_of_mem_operands {tree node operand : Expr} (htree : tree.Regular)
    (hnode : node ∈ tree.nodes) (hoperand : operand ∈ node.operands) : operand.IsInline := by
  have hregular : operand.Regular := by
    intro inner hinner
    have hmem := mem_nodes_of_mem_children (mem_children_of_mem_operands hoperand) hinner
    exact htree inner (mem_nodes_trans hnode hmem)
  exact isInline_of_regular hregular
    (isExpression_of_mem_operands (htree node hnode) operand hoperand)

end Expr

/-- An expression that has a value has changed nothing, and has skipped all assignments in it. One
that succeeds without a value is an assignment and has bound its name to the value of its right-hand
side, and nothing else. A program evaluates nothing but expressions where it needs a value, so its
conditions and bounds have no effect unless they fail. -/
theorem expression_with_value_has_no_effect :
    (∀ ts e rest, Parser.Reads (Parser.expression ts) e rest → e.IsInline) ∧
    (∀ e : Expr, e.IsInline → ∀ limit env env',
      (∀ v, (e.eval limit).outcome env = (.ok (some v), env') →
        env' = env ∧ e.SkipsAssignments limit env) ∧
      ((e.eval limit).outcome env = (.ok none, env') →
        ∃ name value line v, e = .assignment name value line ∧
          (value.eval limit).outcome env = (.ok (some v), env) ∧
          value.SkipsAssignments limit env ∧ env' = env.assign name v)) ∧
    (∀ source tree, Program.parse source = .ok tree →
      ∀ node ∈ tree.nodes, ∀ operand ∈ node.operands, ∀ limit line env v env',
        (valueOf line (operand.eval limit)).outcome env = (.ok v, env') → env' = env) := by
  refine ⟨?_, ?_, ?_⟩
  · intro ts e rest h
    obtain ⟨us, -, hus⟩ := Parser.expression_sound h
    exact hus.isInline
  · intro e h limit env env'
    constructor
    · intro v hrun
      exact ⟨Expr.eq_of_outcome_value h hrun, Expr.skipsAssignments_of_value h hrun⟩
    · intro hrun
      obtain ⟨name, value, line, v, rfl, hvalue, henv⟩ := Expr.assigns_of_no_value h hrun
      have hv : value.IsInline := by simpa [Expr.children] using h.below
      exact ⟨name, value, line, v, rfl, hvalue, Expr.skipsAssignments_of_value hv hvalue, henv⟩
  · intro source tree htree node hnode operand hoperand limit line env v env' hrun
    have hregular := (Program.wellFormed_of_parse htree).2
    have hinline := Expr.isInline_of_mem_operands hregular hnode hoperand
    exact Expr.eq_of_outcome_value hinline (outcome_of_valueOf_ok hrun)

/-- The assignment in this condition is skipped. On its own it would have an effect. -/
theorem condition_with_skipped_assignment_has_no_effect :
    let source := "while false and (y = 1) \x7b\x7d"
    let one : Integer64 := ⟨1, by decide, by decide⟩
    let binding : Expr := .assignment "y" (.literal (.integer one) 1) 1
    let condition : Expr := .logical .and (.literal (.boolean false) 1) binding 1
    Program.parse source = .ok (.block [.whileLoop condition (.block [] 1) 1] 1) ∧
      (condition.eval 10).outcome ∅ = (.ok (some (.boolean false)), ∅) ∧
      condition.SkipsAssignments 10 ∅ ∧
      ((binding.eval 10).outcome ∅).2 = (∅ : Environment).assign "y" (.integer one) ∧
      ((binding.eval 10).outcome ∅).2.get? "y" = some (.integer one) ∧
      ∀ limit env v env', (valueOf 1 (condition.eval limit)).outcome env = (.ok v, env') →
        env' = env := by
  intro source one binding condition
  obtain ⟨-, heffect, hoperands⟩ := expression_with_value_has_no_effect
  have hscan : Token.scan source =
      .ok [⟨.keyword .whileWord, 1⟩, ⟨.boolean false, 1⟩, ⟨.logical .and, 1⟩, ⟨.openParen, 1⟩,
        ⟨.identifier "y", 1⟩, ⟨.assign, 1⟩, ⟨.integer one, 1⟩, ⟨.closeParen, 1⟩, ⟨.openBrace, 1⟩,
        ⟨.closeBrace, 1⟩] := by decide +kernel
  have hparse : Program.parse source = .ok (.block [.whileLoop condition (.block [] 1) 1] 1) := by
    rw [Program.parse_of_scan_ok hscan]
    cbv
  have hloop : .whileLoop condition (.block [] 1) 1 ∈
      (Expr.block [.whileLoop condition (.block [] 1) 1] 1).nodes :=
    Expr.mem_nodes_of_mem_children List.mem_cons_self (Expr.self_mem_nodes _)
  have hinline : condition.IsInline := by
    simp [condition, binding, Expr.IsInline, Expr.nodes, Expr.isExpression]
  have hrun : (condition.eval 10).outcome ∅ = (.ok (some (.boolean false)), ∅) := rfl
  have hskips := ((heffect condition hinline 10 ∅ ∅).1 _ hrun).2
  have hbinds : ((binding.eval 10).outcome ∅).2 = (∅ : Environment).assign "y" (.integer one) := rfl
  have hbound : ((binding.eval 10).outcome ∅).2.get? "y" = some (.integer one) := by
    rw [hbinds, Environment.get?_assign, if_pos rfl]
  refine ⟨hparse, hrun, hskips, hbinds, hbound, ?_⟩
  intro limit env v env' hvalue
  exact hoperands source _ hparse _ hloop condition List.mem_cons_self limit 1 env v env' hvalue

end BoundedScript
