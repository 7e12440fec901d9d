import BoundedScript.Proofs.Evaluation.Outcome
import BoundedScript.Proofs.Value.Faults
import BoundedScript.Proofs.WellFormed

/-!
# Effects of expressions

An expression can bind a variable only through an assignment in parentheses. An assignment has no
value, so whatever takes one as its operand fails at once. An expression that has a value therefore
has no effect, and one that fails has none either or that of a single assignment in it: the last
thing that happened, reported as a missing value.
-/

namespace BoundedScript

open EvalM

namespace Expr

/-- The tree is made of expressions only. -/
def IsInline (e : Expr) : Prop := ∀ node ∈ e.nodes, node.isExpression = true

theorem isInline_iff {e : Expr} :
    e.IsInline ↔ e.isExpression = true ∧ ∀ child ∈ e.children, child.IsInline :=
  forall_nodes_iff

theorem IsInline.below {e : Expr} (h : e.IsInline) : ∀ child ∈ e.children, child.IsInline :=
  (isInline_iff.mp h).2

/-- Below an expression of a program there are only expressions. -/
theorem isInline_of_regular {e : Expr} (h : e.Regular) (he : e.isExpression = true) :
    e.IsInline := by
  induction e with
  | literal | var => exact isInline_iff.mpr ⟨he, by simp [children]⟩
  | arithmetic op left right line ihl ihr | comparison op left right line ihl ihr
  | logical op left right line ihl ihr =>
    obtain ⟨⟨hl, hr⟩, hbelow⟩ := regular_iff.mp h
    simp only [children, List.forall_mem_cons] at hbelow
    apply isInline_iff.mpr
    simp [isExpression, children, ihl hbelow.1 hl, ihr hbelow.2.1 hr]
  | unary op operand line ih =>
    obtain ⟨ho, hbelow⟩ := regular_iff.mp h
    simp only [children, List.forall_mem_cons] at hbelow
    apply isInline_iff.mpr
    simp [isExpression, children, ih hbelow.1 ho]
  | assignment name value line ih =>
    obtain ⟨⟨-, hv⟩, hbelow⟩ := regular_iff.mp h
    simp only [children, List.forall_mem_cons] at hbelow
    apply isInline_iff.mpr
    simp [isExpression, children, ih hbelow.1 hv]
  | conditional | whileLoop | forLoop | block => cases he

/-- The tree is an assignment that finds its value without changing `env` and binds it. -/
def Assigns (limit : Nat) (e : Expr) (env env' : Environment) : Prop :=
  ∃ name value line v, e = assignment name value line ∧
    (value.eval limit).outcome env = (.ok (some v), env) ∧ env' = env.assign name v

/-- All that happens from `env` to `env'` is one assignment somewhere in the tree. -/
def AssignsWithin (limit : Nat) (e : Expr) (env env' : Environment) : Prop :=
  ∃ node ∈ e.nodes, node.Assigns limit env env'

theorem AssignsWithin.of_child {limit : Nat} {e child : Expr} {env env' : Environment}
    (hchild : child ∈ e.children) (h : child.AssignsWithin limit env env') :
    e.AssignsWithin limit env env' := by
  obtain ⟨node, hnode, h⟩ := h
  exact ⟨node, mem_nodes_of_mem_children hchild hnode, h⟩

end Expr

namespace EvalM

variable {α β : Type} {leaves leaves' : Environment → Environment → Prop}

theorem outcome_of_valueOf_ok {line : Nat} {x : EvalM (Option Value)} {v : Value}
    {env env' : Environment} (h : (valueOf line x).outcome env = (.ok v, env')) :
    x.outcome env = (.ok (some v), env') := by
  obtain ⟨result, mid, hx, h⟩ := exists_of_outcome_bind_ok h
  cases result with
  | none => cases h
  | some w =>
    cases h
    exact hx

/-- The computation changes nothing, unless it fails for want of a value; then `leaves` says what it
did. -/
structure Tidy (leaves : Environment → Environment → Prop) (x : EvalM α) : Prop where
  value : ∀ {env a env'}, x.outcome env = (.ok a, env') → env' = env
  fault : ∀ {env err env'}, x.outcome env = (.error err, env') → err.fault ≠ .missingValue →
    env' = env
  missing : ∀ {env err env'}, x.outcome env = (.error err, env') → err.fault = .missingValue →
    leaves env env'

theorem tidy_pure (a : α) : Tidy leaves (pure a : EvalM α) where
  value h := by
    cases h
    rfl
  fault h := by cases h
  missing h := by cases h

theorem tidy_throw {err : RuntimeError} (herr : err.fault ≠ .missingValue) :
    Tidy leaves (throw err : EvalM α) where
  value h := by cases h
  fault h _ := by
    cases h
    rfl
  missing h hmissing := by
    cases h
    exact absurd hmissing herr

theorem tidy_onLine {result : Except Fault α} (line : Nat) (h : Operational result) :
    Tidy leaves (onLine line result) := by
  cases result with
  | ok a => exact tidy_pure a
  | error fault =>
    apply tidy_throw
    rintro rfl
    cases h _ rfl

theorem tidy_lookup (name : String) (line : Nat) : Tidy leaves (lookup name line) where
  value h := by
    rw [outcome_lookup] at h
    exact (congrArg Prod.snd h).symm
  fault h _ := by
    rw [outcome_lookup] at h
    exact (congrArg Prod.snd h).symm
  missing {env _ _} h hmissing := by
    rw [outcome_lookup] at h
    cases hget : env.get? name with
    | some v =>
      rw [hget] at h
      cases h
    | none =>
      rw [hget] at h
      cases h
      cases hmissing

theorem Tidy.bind {x : EvalM α} {f : α → EvalM β} (hx : Tidy leaves x)
    (hf : ∀ a, Tidy leaves (f a)) : Tidy leaves (x >>= f) where
  value h := by
    obtain ⟨a, mid, hmid, h⟩ := exists_of_outcome_bind_ok h
    rw [← hx.value hmid]
    exact (hf a).value h
  fault h herr := by
    rcases error_or_exists_of_outcome_bind_error h with h | ⟨a, mid, hmid, h⟩
    · exact hx.fault h herr
    · rw [← hx.value hmid]
      exact (hf a).fault h herr
  missing h herr := by
    rcases error_or_exists_of_outcome_bind_error h with h | ⟨a, mid, hmid, h⟩
    · exact hx.missing h herr
    · rw [← hx.value hmid]
      exact (hf a).missing h herr

theorem Tidy.mono {x : EvalM α} (h : Tidy leaves x)
    (hleaves : ∀ {env env'}, leaves env env' → leaves' env env') : Tidy leaves' x where
  value := h.value
  fault := h.fault
  missing hx herr := hleaves (h.missing hx herr)

theorem Tidy.truthOf {line : Nat} {x : EvalM (Option Value)} (h : Tidy leaves (valueOf line x)) :
    Tidy leaves (truthOf line x) :=
  h.bind fun v => tidy_onLine line v.operational_toBoolean

end EvalM

namespace Expr

variable {limit : Nat}

/-! ### Operands

What an operand computes, once its value is insisted on. -/

section

variable (line line' : Nat)

theorem valueOf_literal (value : Literal) :
    valueOf line' ((literal value line).eval limit) = pure (.ofLiteral value) := by
  simp only [eval, valueOf, pure_bind]

theorem valueOf_var (name : String) :
    valueOf line' ((var name line).eval limit) = lookup name line := by
  simp only [eval, valueOf, bind_assoc, pure_bind, bind_pure]

theorem valueOf_arithmetic (op : ArithmeticOp) (left right : Expr) :
    valueOf line' ((arithmetic op left right line).eval limit) = (do
      let x ← valueOf line (left.eval limit)
      let y ← valueOf line (right.eval limit)
      onLine line (Value.arithmetic op x y)) := by
  simp only [eval, valueOf, bind_assoc, pure_bind, bind_pure]

theorem valueOf_comparison (op : ComparisonOp) (left right : Expr) :
    valueOf line' ((comparison op left right line).eval limit) = (do
      let x ← valueOf line (left.eval limit)
      let y ← valueOf line (right.eval limit)
      onLine line (Value.comparison op x y)) := by
  simp only [eval, valueOf, bind_assoc, pure_bind, bind_pure]

theorem valueOf_logical (op : LogicalOp) (left right : Expr) :
    valueOf line' ((logical op left right line).eval limit) = (do
      let b ← truthOf line (left.eval limit)
      if b = op.decisive then pure (.boolean b)
      else return .boolean (← truthOf line (right.eval limit))) := by
  simp only [eval, valueOf, bind_assoc]
  congr
  funext b
  split <;> simp only [bind_assoc, pure_bind]

theorem valueOf_unary (op : UnaryOp) (operand : Expr) :
    valueOf line' ((unary op operand line).eval limit) = (do
      let x ← valueOf line (operand.eval limit)
      onLine line (Value.unary op x)) := by
  simp only [eval, valueOf, bind_assoc, pure_bind, bind_pure]

theorem valueOf_assignment (name : String) (value : Expr) :
    valueOf line' ((assignment name value line).eval limit) = (do
      let x ← valueOf line (value.eval limit)
      EvalM.assign name x
      throw ⟨.missingValue, line'⟩) := by
  simp only [eval, valueOf, bind_assoc, pure_bind]

end

section

variable {e left right : Expr} {line : Nat}

theorem tidy_of_child {α : Type} {x : EvalM α} {child : Expr} (hchild : child ∈ e.children)
    (h : Tidy (child.AssignsWithin limit) x) : Tidy (e.AssignsWithin limit) x :=
  h.mono fun hassigns => hassigns.of_child hchild

theorem tidy_operation {f : Value → Value → Except Fault Value} (hf : ∀ x y, Operational (f x y))
    (hchildren : e.children = [left, right])
    (hl : Tidy (left.AssignsWithin limit) (valueOf line (left.eval limit)))
    (hr : Tidy (right.AssignsWithin limit) (valueOf line (right.eval limit))) :
    Tidy (e.AssignsWithin limit) (do
      let x ← valueOf line (left.eval limit)
      let y ← valueOf line (right.eval limit)
      onLine line (f x y)) := by
  apply (tidy_of_child (by simp [hchildren]) hl).bind
  intro x
  apply (tidy_of_child (by simp [hchildren]) hr).bind
  intro y
  exact tidy_onLine line (hf x y)

/-- The one place where something happens: the value is bound, and then there is none. -/
theorem tidy_valueOf_assignment {name : String} {value : Expr}
    (h : Tidy (value.AssignsWithin limit) (valueOf line (value.eval limit))) (line' : Nat) :
    Tidy ((assignment name value line).AssignsWithin limit)
      (valueOf line' ((assignment name value line).eval limit)) := by
  have hvalue := tidy_of_child (e := assignment name value line) List.mem_cons_self h
  rw [valueOf_assignment]
  constructor
  · intro env a env' hrun
    obtain ⟨x, mid, -, hrun⟩ := exists_of_outcome_bind_ok hrun
    cases hrun
  · intro env err env' hrun herr
    rcases error_or_exists_of_outcome_bind_error hrun with hrun | ⟨x, mid, -, hrun⟩
    · exact hvalue.fault hrun herr
    · cases hrun
      exact absurd rfl herr
  · intro env err env' hrun herr
    rcases error_or_exists_of_outcome_bind_error hrun with hrun | ⟨x, mid, hmid, hrun⟩
    · exact hvalue.missing hrun herr
    · cases hrun
      obtain rfl := hvalue.value hmid
      exact ⟨_, self_mem_nodes _, name, value, line, x, rfl, outcome_of_valueOf_ok hmid, rfl⟩

end

/-- An operand that has its value has changed nothing. One that fails has changed nothing or, if a
value is missing, made one assignment. -/
theorem tidy_valueOf_eval {e : Expr} (h : e.IsInline) (line' : Nat) :
    Tidy (e.AssignsWithin limit) (valueOf line' (e.eval limit)) := by
  induction e generalizing line' with
  | literal value line =>
    rw [valueOf_literal]
    exact tidy_pure _
  | var name line =>
    rw [valueOf_var]
    exact tidy_lookup name line
  | arithmetic op left right line ihl ihr =>
    obtain ⟨hl, hr⟩ : left.IsInline ∧ right.IsInline := by simpa [children] using h.below
    rw [valueOf_arithmetic]
    exact tidy_operation (Value.operational_arithmetic op) rfl (ihl hl line) (ihr hr line)
  | comparison op left right line ihl ihr =>
    obtain ⟨hl, hr⟩ : left.IsInline ∧ right.IsInline := by simpa [children] using h.below
    rw [valueOf_comparison]
    exact tidy_operation (Value.operational_comparison op) rfl (ihl hl line) (ihr hr line)
  | logical op left right line ihl ihr =>
    obtain ⟨hl, hr⟩ : left.IsInline ∧ right.IsInline := by simpa [children] using h.below
    rw [valueOf_logical]
    apply (tidy_of_child (by simp [children]) (ihl hl line)).truthOf.bind
    intro b
    split
    · exact tidy_pure _
    · exact (tidy_of_child (by simp [children]) (ihr hr line)).truthOf.bind fun _ => tidy_pure _
  | unary op operand line ih =>
    have ho : operand.IsInline := by simpa [children] using h.below
    rw [valueOf_unary]
    apply (tidy_of_child (by simp [children]) (ih ho line)).bind
    intro x
    exact tidy_onLine line (Value.operational_unary op x)
  | assignment name value line ih =>
    have hv : value.IsInline := by simpa [children] using h.below
    exact tidy_valueOf_assignment (ih hv line) line'
  | conditional | whileLoop | forLoop | block => cases h _ (self_mem_nodes _)

theorem isInline_of_assignment_mem {tree value : Expr} {name : String} {line : Nat}
    (htree : tree.Regular) (hnode : .assignment name value line ∈ tree.nodes) : value.IsInline := by
  have hvalue : value ∈ (Expr.assignment name value line).children := List.mem_cons_self
  apply isInline_of_regular
  · intro node hmem
    exact htree node (mem_nodes_trans hnode (mem_nodes_of_mem_children hvalue hmem))
  · exact (htree _ hnode).2

end Expr

/-- A failing assignment changes nothing or, if a value is missing, exactly one variable: the one
that an assignment within its right-hand side binds. -/
theorem failed_assignment_changes_at_most_operand {source : String} {tree : Expr}
    (htree : Program.parse source = .ok tree) {name : String} {value : Expr} {line : Nat}
    (hnode : .assignment name value line ∈ tree.nodes) {limit : Nat} {env env' : Environment}
    {err : RuntimeError}
    (hrun : ((Expr.assignment name value line).eval limit).outcome env = (.error err, env')) :
    (err.fault ≠ .missingValue ∧ env' = env) ∨
      (err.fault = .missingValue ∧ ∃ inner operand l v, .assignment inner operand l ∈ value.nodes ∧
        (operand.eval limit).outcome env = (.ok (some v), env) ∧ env' = env.assign inner v) := by
  have hinline := Expr.isInline_of_assignment_mem (Program.wellFormed_of_parse htree).2 hnode
  have htidy : Tidy (value.AssignsWithin limit) (valueOf line (value.eval limit)) :=
    Expr.tidy_valueOf_eval hinline line
  rw [Expr.eval] at hrun
  rcases error_or_exists_of_outcome_bind_error hrun with hrun | ⟨x, mid, -, hrun⟩
  · by_cases herr : err.fault = .missingValue
    · obtain ⟨node, hmem, inner, operand, l, v, rfl, hv, henv⟩ := htidy.missing hrun herr
      exact .inr ⟨herr, inner, operand, l, v, hmem, hv, henv⟩
    · exact .inl ⟨herr, htidy.fault hrun herr⟩
  · cases hrun

/-- The assignment in this right-hand side is skipped, and the division fails. -/
theorem failed_division_changes_nothing :
    let source := "x = (false and (y = 1)) == 1 // 0"
    let one : Expr := .literal (.integer ⟨1, by decide, by decide⟩) 1
    let zero : Expr := .literal (.integer ⟨0, by decide, by decide⟩) 1
    let value : Expr := .comparison .eq
      (.logical .and (.literal (.boolean false) 1) (.assignment "y" one 1) 1)
      (.arithmetic .floorDiv one zero 1) 1
    let x := Expr.assignment "x" value 1
    Program.parse source = .ok (.block [x] 1) ∧
      (x.eval 10).outcome ∅ = (.error ⟨.divisionByZero, 1⟩, ∅) := by
  intro source one zero value x
  have hscan : Token.scan source =
      .ok [⟨.identifier "x", 1⟩, ⟨.assign, 1⟩, ⟨.openParen, 1⟩, ⟨.boolean false, 1⟩,
        ⟨.logical .and, 1⟩, ⟨.openParen, 1⟩, ⟨.identifier "y", 1⟩, ⟨.assign, 1⟩,
        ⟨.integer ⟨1, by decide, by decide⟩, 1⟩, ⟨.closeParen, 1⟩, ⟨.closeParen, 1⟩,
        ⟨.comparison .eq, 1⟩, ⟨.integer ⟨1, by decide, by decide⟩, 1⟩, ⟨.arithmetic .floorDiv, 1⟩,
        ⟨.integer ⟨0, by decide, by decide⟩, 1⟩] := by decide +kernel
  have hparse : Program.parse source = .ok (.block [x] 1) := by
    rw [Program.parse_of_scan_ok hscan]
    cbv
  have hfails : ((x.eval 10).outcome ∅).1 = .error ⟨.divisionByZero, 1⟩ := rfl
  have hrun : (x.eval 10).outcome ∅ = (.error ⟨.divisionByZero, 1⟩, ((x.eval 10).outcome ∅).2) :=
    Prod.ext hfails rfl
  have hnode : x ∈ (Expr.block [x] 1).nodes :=
    Expr.mem_nodes_of_mem_children List.mem_cons_self (Expr.self_mem_nodes x)
  refine ⟨hparse, ?_⟩
  rcases failed_assignment_changes_at_most_operand hparse hnode hrun with ⟨-, henv⟩ | ⟨herr, -⟩
  · rw [hrun, henv]
  · cases herr

/-- The right-hand side fails, and yet a variable is bound afterwards. -/
theorem failed_assignment_binds_operand :
    let one : Expr := .literal (.integer ⟨1, by decide, by decide⟩) 1
    let x := Expr.assignment "x" (.assignment "y" one 1) 1
    Program.parse "x = (y = 1)" = .ok (.block [x] 1) ∧
      ((x.eval 10).outcome ∅).1 = .error ⟨.missingValue, 1⟩ ∧
      ((x.eval 10).outcome ∅).2.get? "y" = some (.integer ⟨1, by decide, by decide⟩) ∧
      ((x.eval 10).outcome ∅).2 ≠ ∅ := by
  intro one x
  have hscan : Token.scan "x = (y = 1)" =
      .ok [⟨.identifier "x", 1⟩, ⟨.assign, 1⟩, ⟨.openParen, 1⟩, ⟨.identifier "y", 1⟩, ⟨.assign, 1⟩,
        ⟨.integer ⟨1, by decide, by decide⟩, 1⟩, ⟨.closeParen, 1⟩] := by decide +kernel
  have hparse : Program.parse "x = (y = 1)" = .ok (.block [x] 1) := by
    rw [Program.parse_of_scan_ok hscan]
    cbv
  have hbound : ((x.eval 10).outcome ∅).2.get? "y" = some (.integer ⟨1, by decide, by decide⟩) := by
    change ((∅ : Environment).assign "y" (.integer ⟨1, by decide, by decide⟩)).get? "y" = _
    simp
  refine ⟨hparse, rfl, hbound, ?_⟩
  intro hempty
  rw [hempty] at hbound
  cases hbound.symm.trans (Environment.get?_empty "y")

end BoundedScript
