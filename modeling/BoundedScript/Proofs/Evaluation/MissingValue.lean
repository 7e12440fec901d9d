import BoundedScript.Proofs.Evaluation.Blame
import BoundedScript.Proofs.Parser.Completeness
import Mathlib.Data.List.Infix

/-!
# Missing values

A value is missing where an operand, a condition, a bound or a right-hand side produces nothing. A
literal, a variable or an operation that does not fail has a value, so it takes a tree of another
kind in such a place. Of these the grammar allows only the assignment, and only in parentheses.
-/

namespace BoundedScript

namespace Expr

/-- Literals, variables and operations. -/
def givesValue : Expr → Bool
  | literal .. | var .. | arithmetic .. | comparison .. | logical .. | unary .. => true
  | assignment .. | conditional .. | whileLoop .. | forLoop .. | block .. => false

/-- Where a value is needed there is a literal, a variable or an operation. -/
def OperandsGiveValues (e : Expr) : Prop :=
  ∀ node ∈ e.nodes, ∀ operand ∈ node.operands, operand.givesValue = true

theorem operandsGiveValues_iff {e : Expr} :
    e.OperandsGiveValues ↔ (∀ operand ∈ e.operands, operand.givesValue = true) ∧
      ∀ child ∈ e.children, child.OperandsGiveValues :=
  forall_nodes_iff

end Expr

/-! ### Evaluation -/

namespace EvalM

variable {α : Type} {line : Nat}

/-- An error for another reason than a missing value. -/
def NotMissing (err : RuntimeError) : Prop := err.fault ≠ .missingValue

/-- The computation ends with a value or an error. -/
def GivesValue (x : EvalM (Option Value)) : Prop :=
  ∀ env env', x.outcome env ≠ (.ok none, env')

theorem givesValue_some (v : Value) : GivesValue (pure (some v)) := by
  intro env env' h
  cases h

theorem givesValue_bind {x : EvalM α} {f : α → EvalM (Option Value)}
    (hf : ∀ a, GivesValue (f a)) : GivesValue (x >>= f) := by
  intro env env' h
  obtain ⟨a, mid, -, h⟩ := exists_of_outcome_bind_ok h
  exact hf a mid env' h

theorem notMissing_onLine {result : Except Fault α} (h : Operational result) :
    Blames NotMissing (onLine line result) := by
  cases result with
  | ok a => exact blames_pure a
  | error fault =>
    apply blames_throw
    rintro rfl
    cases h _ rfl

variable {x : EvalM (Option Value)}

theorem GivesValue.notMissing (h : GivesValue x) (hx : Blames NotMissing x) :
    Blames NotMissing (valueOf line x) := by
  intro env err env' herr
  rcases error_or_exists_of_outcome_bind_error herr with herr | ⟨result, mid, hmid, herr⟩
  · exact hx env err env' herr
  · cases result with
    | none => exact absurd hmid (h env mid)
    | some v => cases herr

end EvalM

open EvalM

namespace Expr

variable {limit line : Nat}

theorem givesValue_eval {e : Expr} (h : e.givesValue = true) : GivesValue (e.eval limit) := by
  cases e with
  | literal value line =>
    rw [eval]
    exact givesValue_some _
  | var name line =>
    rw [eval]
    exact givesValue_bind fun _ => givesValue_some _
  | arithmetic op left right line | comparison op left right line =>
    rw [eval]
    exact givesValue_bind fun _ => givesValue_bind fun _ => givesValue_bind fun _ =>
      givesValue_some _
  | logical op left right line =>
    rw [eval]
    apply givesValue_bind
    intro b
    split
    · exact givesValue_some _
    · exact givesValue_bind fun _ => givesValue_some _
  | unary op operand line =>
    rw [eval]
    exact givesValue_bind fun _ => givesValue_bind fun _ => givesValue_some _
  | assignment | conditional | whileLoop | forLoop | block => cases h

theorem notMissing_steps {node : Expr}
    (h : ∀ operand ∈ node.operands, operand.givesValue = true) :
    node.StepsHave (fun _ => Blames NotMissing) limit where
  valueOf operand hmem hvalue := (givesValue_eval (h operand hmem)).notMissing hvalue
  onLine hresult := notMissing_onLine hresult
  lookup _ := blames_lookup (by simp [NotMissing])
  assign _ value := blames_assign _ value
  stop _ := blames_throw (by simp [NotMissing])

/-- An error of a tree whose operands give values is never about a missing one. -/
theorem notMissing_eval {e : Expr} (h : e.OperandsGiveValues) :
    Blames NotMissing (e.eval limit) :=
  eval_of_steps sequential_blames e fun node hnode => notMissing_steps (h node hnode)

end Expr

/-! ### Trees of a source -/

namespace Grammar

open BoundedScript.Expr

/-- No assignment is opened by a parenthesis. -/
def NoInnerAssignment (us : List Located) : Prop :=
  ∀ name, ¬ [.openParen, .identifier name, .assign] <:+: us.map Located.token

section

variable {us vs : List Located}

theorem NoInnerAssignment.of_infix (h : NoInnerAssignment vs) (hus : us <:+: vs) :
    NoInnerAssignment us := by
  intro name hname
  exact h name (hname.trans (hus.map Located.token))

theorem NoInnerAssignment.left (h : NoInnerAssignment (us ++ vs)) : NoInnerAssignment us :=
  h.of_infix (List.prefix_append us vs).isInfix

theorem NoInnerAssignment.right (h : NoInnerAssignment (us ++ vs)) : NoInnerAssignment vs :=
  h.of_infix (List.suffix_append us vs).isInfix

theorem NoInnerAssignment.tail {u : Located} (h : NoInnerAssignment (u :: us)) :
    NoInnerAssignment us :=
  h.of_infix (List.suffix_cons u us).isInfix

theorem not_noInnerAssignment_cons (name : String) (l₁ l₂ l₃ : Nat) :
    ¬ NoInnerAssignment (⟨.openParen, l₁⟩ :: ⟨.identifier name, l₂⟩ :: ⟨.assign, l₃⟩ :: us) := by
  intro h
  exact h name ⟨[], us.map Located.token, rfl⟩

end

theorem Expression.operandsGiveValues {c : Category} {us : List Located} {e : Expr}
    (h : Expression c us e) (hus : NoInnerAssignment us) :
    e.givesValue = true ∧ e.OperandsGiveValues := by
  induction h with
  | disjunction _ ih | conjunction _ ih | negation _ ih | comparison _ ih | sum _ ih | product _ ih
  | signed _ ih => exact ih hus
  | or _ _ ihl ihr | and _ _ ihl ihr | compare _ _ ihl ihr | add _ _ _ ihl ihr
  | multiply _ _ _ ihl ihr =>
    obtain ⟨hl, hl'⟩ := ihl hus.left
    obtain ⟨hr, hr'⟩ := ihr hus.right.tail
    exact ⟨rfl, operandsGiveValues_iff.mpr
      ⟨by simp [operands, hl, hr], by simp [children, hl', hr']⟩⟩
  | not _ ih | minus _ ih =>
    obtain ⟨he, he'⟩ := ih hus.tail
    exact ⟨rfl, operandsGiveValues_iff.mpr ⟨by simp [operands, he], by simp [children, he']⟩⟩
  | integer | boolean | var =>
    exact ⟨rfl, operandsGiveValues_iff.mpr ⟨by simp [operands], by simp [children]⟩⟩
  | assignment => exact absurd hus (not_noInnerAssignment_cons _ _ _ _)
  | group _ ih => exact ih hus.tail.left

/-- All trees of a phrase have operands that give values. -/
def Phrase.OperandsGiveValues : Phrase → Prop
  | statement e | conditional e | branch e | block e => e.OperandsGiveValues
  | statements es | body es => ∀ e ∈ es, e.OperandsGiveValues

theorem Derives.operandsGiveValues {us : List Located} {p : Phrase} (h : Derives us p)
    (hus : NoInnerAssignment us) : p.OperandsGiveValues := by
  induction h with
  | conditional _ ih | elseIf _ ih | elseBlock _ ih => exact ih hus
  | whileLoop hc _ ihb =>
    obtain ⟨hc, hc'⟩ := hc.operandsGiveValues hus.left.tail
    have hb : Expr.OperandsGiveValues _ := ihb hus.right
    exact operandsGiveValues_iff.mpr ⟨by simp [operands, hc], by simp [children, hc', hb]⟩
  | forLoop hf hl _ ihb =>
    obtain ⟨hf, hf'⟩ := hf.operandsGiveValues hus.left.left.tail.tail.tail
    obtain ⟨hl, hl'⟩ := hl.operandsGiveValues hus.left.right.tail
    have hb : Expr.OperandsGiveValues _ := ihb hus.right
    exact operandsGiveValues_iff.mpr
      ⟨by simp [operands, hf, hl], by simp [children, hf', hl', hb]⟩
  | assignment he =>
    obtain ⟨he, he'⟩ := he.operandsGiveValues hus.tail.tail
    exact operandsGiveValues_iff.mpr ⟨by simp [operands, he], by simp [children, he']⟩
  | @update _ op name us e line l₁ _ he =>
    obtain ⟨he, he'⟩ := he.operandsGiveValues hus.tail.tail
    have hvar : (Expr.var name line).OperandsGiveValues :=
      operandsGiveValues_iff.mpr ⟨by simp [operands], by simp [children]⟩
    have hupdate : (Expr.arithmetic op (.var name line) e line).OperandsGiveValues :=
      operandsGiveValues_iff.mpr
        ⟨List.forall_mem_cons.mpr ⟨rfl, by simp [he]⟩, by simp [children, hvar, he']⟩
    exact operandsGiveValues_iff.mpr
      ⟨by simp [operands, givesValue], by simp [children, hupdate]⟩
  | expression he => exact (he.operandsGiveValues hus).2
  | ifThen hc _ iht =>
    obtain ⟨hc, hc'⟩ := hc.operandsGiveValues hus.left.tail
    have ht : Expr.OperandsGiveValues _ := iht hus.right
    exact operandsGiveValues_iff.mpr ⟨by simp [operands, hc], by simp [children, hc', ht]⟩
  | ifElse hc _ _ _ iht ihe =>
    obtain ⟨hc, hc'⟩ := hc.operandsGiveValues hus.left.left.left.tail
    have ht : Expr.OperandsGiveValues _ := iht hus.left.left.right
    have he : Expr.OperandsGiveValues _ := ihe hus.right.tail
    exact operandsGiveValues_iff.mpr
      ⟨by simp [operands, hc], by simp [children, hc', ht, he]⟩
  | block _ ih => exact operandsGiveValues_iff.mpr ⟨by simp [operands], ih hus.tail.left⟩
  | single _ ih => exact List.forall_mem_singleton.mpr (ih hus)
  | several _ _ _ _ ihe ihs => exact List.forall_mem_cons.mpr ⟨ihe hus.left.left, ihs hus.right⟩
  | empty =>
    intro e he
    cases he
  | filled _ _ _ ih => exact ih hus.left.right

end Grammar

/-- In a source without an assignment right after an opening parenthesis no value is ever missing,
whatever its runs do. -/
theorem missing_value_needs_inner_assignment {source : String} {ts : List Located}
    (hscan : Token.scan source = .ok ts)
    (hts : ∀ name, ¬ [.openParen, .identifier name, .assign] <:+: ts.map Located.token)
    (limit line : Nat) : Program.run limit source ≠ .error (.runtime ⟨.missingValue, line⟩) := by
  intro hrun
  cases hparse : Program.parse source with
  | error e => cases (Program.run_of_parse_error hparse).symm.trans hrun
  | ok tree =>
    obtain ⟨us, es, hus, hes, rfl⟩ := Program.parse_eq_ok_iff_derives.mp hparse
    obtain rfl : ts = us := Except.ok.inj (hscan.symm.trans hus)
    have hvalues : (Expr.block es 1).OperandsGiveValues :=
      Expr.operandsGiveValues_iff.mpr ⟨by simp [Expr.operands], hes.operandsGiveValues hts⟩
    rw [Program.run_of_parse_ok hparse] at hrun
    rcases houtcome : ((Expr.block es 1).eval limit).outcome ∅ with ⟨err | value, env'⟩
    · rw [houtcome] at hrun
      cases hrun
      exact Expr.notMissing_eval hvalues _ _ _ houtcome rfl
    · rw [houtcome] at hrun
      cases hrun

/-- Parentheses, a loop that comes to its end and a conditional without an `else`, once taken and
once not. -/
theorem grouping_and_empty_branch_miss_no_value :
    let source := "j = 0; i = (j)\nwhile (i) < 2 \x7b if i == 1 \x7b \x7d; i += 1 \x7d"
    let zero : Token := .integer ⟨0, by decide, by decide⟩
    let one : Token := .integer ⟨1, by decide, by decide⟩
    let two : Token := .integer ⟨2, by decide, by decide⟩
    let ts : List Located :=
      [⟨.identifier "j", 1⟩, ⟨.assign, 1⟩, ⟨zero, 1⟩, ⟨.semicolon, 1⟩, ⟨.identifier "i", 1⟩,
        ⟨.assign, 1⟩, ⟨.openParen, 1⟩, ⟨.identifier "j", 1⟩, ⟨.closeParen, 1⟩, ⟨.newline, 2⟩, ⟨.keyword .whileWord, 2⟩, ⟨.openParen, 2⟩, ⟨.identifier "i", 2⟩,
        ⟨.closeParen, 2⟩, ⟨.comparison .lt, 2⟩, ⟨two, 2⟩, ⟨.openBrace, 2⟩, ⟨.keyword .ifWord, 2⟩,
        ⟨.identifier "i", 2⟩, ⟨.comparison .eq, 2⟩, ⟨one, 2⟩, ⟨.openBrace, 2⟩, ⟨.closeBrace, 2⟩,
        ⟨.semicolon, 2⟩, ⟨.identifier "i", 2⟩, ⟨.update .add, 2⟩, ⟨one, 2⟩, ⟨.closeBrace, 2⟩]
    Token.scan source = .ok ts ∧ Program.run 2 source = .ok none ∧
      Program.run 1 source = .error (.runtime ⟨.loopLimit 1, 2⟩) ∧
      ∀ limit line, Program.run limit source ≠ .error (.runtime ⟨.missingValue, line⟩) := by
  intro source zero one two ts
  have hscan : Token.scan source = .ok ts := by decide +kernel
  refine ⟨hscan, by decide +kernel, by decide +kernel,
    missing_value_needs_inner_assignment hscan fun name => ?_⟩
  simp [ts, zero, one, two, List.infix_cons_iff]

end BoundedScript
