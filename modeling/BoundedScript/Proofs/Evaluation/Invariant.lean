import BoundedScript.Proofs.Evaluation.Outcome
import BoundedScript.Proofs.Tree
import BoundedScript.Proofs.Value.Faults

/-!
# Properties that evaluation takes from its steps

Whatever a tree does, it does in steps of a few kinds. A node insists on the value of an operand,
carries out an operation, looks up a variable, binds a name or stops a loop at its ceiling, and all
the rest is to put such steps in sequence. So a property of computations that passes from parts to
sequences holds of a whole evaluation as soon as it holds of the steps of each node.
-/

namespace BoundedScript

namespace Expr

/-- The name that a node binds by itself. -/
def boundName? : Expr → Option String
  | assignment name .. | forLoop name .. => some name
  | literal .. | var .. | arithmetic .. | comparison .. | logical .. | unary .. | conditional ..
  | whileLoop .. | block .. => none

def isLoop : Expr → Bool
  | whileLoop .. | forLoop .. => true
  | literal .. | var .. | arithmetic .. | comparison .. | logical .. | unary .. | assignment ..
  | conditional .. | block .. => false

/-- The trees below a node whose value it needs. -/
def operands : Expr → List Expr
  | literal .. | var .. | block .. => []
  | arithmetic _ left right _ | comparison _ left right _ | logical _ left right _ => [left, right]
  | unary _ operand _ => [operand]
  | assignment _ value _ => [value]
  | conditional condition _ _ _ | whileLoop condition _ _ => [condition]
  | forLoop _ first last _ _ => [first, last]

theorem mem_children_of_mem_operands {e operand : Expr} (h : operand ∈ e.operands) :
    operand ∈ e.children := by
  cases e with
  | literal | var | block => cases h
  | arithmetic | comparison | logical | unary | assignment => exact h
  | conditional | whileLoop | forLoop =>
    simp only [operands, children, List.mem_cons, List.not_mem_nil] at h ⊢
    grind

end Expr

namespace EvalM

/-- A property of computations that a sequence has if its parts have it. -/
structure Sequential (S : ∀ α : Type, EvalM α → Prop) : Prop where
  pure {α : Type} (a : α) : S α (pure a)
  bind {α β : Type} {x : EvalM α} {f : α → EvalM β} :
    S α x → (∀ a, S β (f a)) → S β (x >>= f)

namespace Sequential

variable {S : ∀ α : Type, EvalM α → Prop} (hS : Sequential S) {line : Nat}
  {x : EvalM (Option Value)} {condition : EvalM Bool} {body : EvalM (Option Value)}

include hS

theorem valueOf (hx : S _ x) (hmissing : S Value (throw ⟨.missingValue, line⟩)) :
    S _ (valueOf line x) := by
  apply hS.bind hx
  intro value
  cases value with
  | some v => exact hS.pure v
  | none => exact hmissing

theorem onLine {α : Type} {result : Except Fault α} (h : Operational result)
    (hfault : ∀ fault, fault.isOperational = true → S α (throw ⟨fault, line⟩)) :
    S α (onLine line result) := by
  cases result with
  | ok a => exact hS.pure a
  | error fault => exact hfault fault (h fault rfl)

/-- A loop counts with the ceiling and the line that it started with. -/
theorem repeatWhile (hc : S _ condition) (hb : S _ body) (guard : LoopGuard) (last : Option Value)
    (hstop : S (Option Value) (throw guard.exceeded)) :
    S _ (repeatWhile guard condition body last) := by
  induction guard, last using repeatWhile.induct with
  | case1 guard last ih =>
    rw [EvalM.repeatWhile]
    apply hS.bind hc
    intro b
    cases b with
    | false => exact hS.pure last
    | true =>
      by_cases hn : guard.advance.Allows
      · simp only [if_true, dif_pos hn]
        exact hS.bind hb fun value => ih hn value hstop
      · simp only [if_true, dif_neg hn]
        exact hstop

theorem repeatFor (hb : S _ body) {counter : String} (hcounter : ∀ v, S _ (assign counter v))
    (times : Nat) :
    ∀ (guard : LoopGuard) (n : Integer64) (last : Option Value),
      S (Option Value) (throw guard.exceeded) →
        S _ (repeatFor guard counter body times n last) := by
  induction times with
  | zero =>
    intro guard n last _
    exact hS.pure last
  | succ times ih =>
    intro guard n last hstop
    rw [EvalM.repeatFor]
    apply hS.bind (hcounter _)
    intro _
    by_cases hn : guard.advance.Allows
    · rw [if_pos hn]
      exact hS.bind hb fun value => ih guard.advance n.next value hstop
    · rw [if_neg hn]
      exact hstop

end Sequential

end EvalM

open EvalM

namespace Expr

/-- What a node does by itself, between the evaluations of the trees below it, has the property. -/
structure StepsHave (S : ∀ α : Type, EvalM α → Prop) (limit : Nat) (node : Expr) : Prop where
  valueOf : ∀ operand ∈ node.operands, S _ (operand.eval limit) →
    S _ (valueOf node.line (operand.eval limit))
  onLine {α : Type} {result : Except Fault α} : Operational result → S _ (onLine node.line result)
  lookup {name : String} {line : Nat} : node = var name line → S _ (lookup name line)
  assign {name : String} : node.boundName? = some name → ∀ value, S _ (assign name value)
  stop : node.isLoop = true → S (Option Value) (throw ⟨.loopLimit limit, node.line⟩)

variable {S : ∀ α : Type, EvalM α → Prop} (hS : Sequential S) {limit : Nat}

include hS

theorem evalAll_of_steps {es : List Expr} (h : ∀ e ∈ es, S _ (e.eval limit)) :
    ∀ last, S _ (evalAll limit last es) := by
  induction es with
  | nil =>
    intro last
    exact hS.pure last
  | cons e es ih =>
    intro last
    rw [evalAll]
    apply hS.bind (h e List.mem_cons_self)
    intro value
    exact ih (fun e' he' => h e' (List.mem_cons_of_mem _ he')) value

/-- Evaluation has a property that its steps have and that sequences take from their parts. -/
theorem eval_of_steps (e : Expr) (h : ∀ node ∈ e.nodes, node.StepsHave S limit) :
    S _ (e.eval limit) := by
  induction e using induct_children with
  | h e ih =>
    obtain ⟨hsteps, hchildren⟩ := forall_nodes_iff.mp h
    have hbelow (child : Expr) (hchild : child ∈ e.children) : S _ (child.eval limit) :=
      ih child hchild (hchildren child hchild)
    have hvalue (operand : Expr) (hmem : operand ∈ e.operands) :
        S _ (valueOf e.line (operand.eval limit)) :=
      hsteps.valueOf operand hmem (hbelow operand (mem_children_of_mem_operands hmem))
    have htruth (operand : Expr) (hmem : operand ∈ e.operands) :
        S _ (truthOf e.line (operand.eval limit)) :=
      hS.bind (hvalue operand hmem) fun v => hsteps.onLine v.operational_toBoolean
    have hinteger (operand : Expr) (hmem : operand ∈ e.operands) :
        S _ (integerOf e.line (operand.eval limit)) :=
      hS.bind (hvalue operand hmem) fun v => hsteps.onLine v.operational_toInteger
    cases e with
    | literal value line =>
      rw [eval]
      exact hS.pure _
    | var name line =>
      rw [eval]
      exact hS.bind (hsteps.lookup rfl) fun _ => hS.pure _
    | arithmetic op left right line =>
      rw [eval]
      apply hS.bind (hvalue left (by simp [operands]))
      intro x
      apply hS.bind (hvalue right (by simp [operands]))
      intro y
      exact hS.bind (hsteps.onLine (Value.operational_arithmetic op x y)) fun _ => hS.pure _
    | comparison op left right line =>
      rw [eval]
      apply hS.bind (hvalue left (by simp [operands]))
      intro x
      apply hS.bind (hvalue right (by simp [operands]))
      intro y
      exact hS.bind (hsteps.onLine (Value.operational_comparison op x y)) fun _ => hS.pure _
    | logical op left right line =>
      rw [eval]
      apply hS.bind (htruth left (by simp [operands]))
      intro b
      split
      · exact hS.pure _
      · exact hS.bind (htruth right (by simp [operands])) fun _ => hS.pure _
    | unary op operand line =>
      rw [eval]
      apply hS.bind (hvalue operand (by simp [operands]))
      intro x
      exact hS.bind (hsteps.onLine (Value.operational_unary op x)) fun _ => hS.pure _
    | assignment name value line =>
      rw [eval]
      apply hS.bind (hvalue value (by simp [operands]))
      intro x
      exact hS.bind (hsteps.assign rfl x) fun _ => hS.pure _
    | conditional condition thenBranch elseBranch line =>
      have hcondition := htruth condition (by simp [operands])
      have hthen := hbelow thenBranch (by simp [children])
      cases elseBranch with
      | none =>
        rw [eval]
        apply hS.bind hcondition
        intro b
        cases b with
        | true => exact hthen
        | false => exact hS.pure _
      | some branch =>
        rw [eval]
        apply hS.bind hcondition
        intro b
        cases b with
        | true => exact hthen
        | false => exact hbelow branch (by simp [children])
    | whileLoop condition body line =>
      rw [eval]
      exact hS.repeatWhile (htruth condition (by simp [operands]))
        (hbelow body (by simp [children])) _ none (hsteps.stop rfl)
    | forLoop counter first last body line =>
      rw [eval]
      apply hS.bind (hinteger first (by simp [operands]))
      intro a
      apply hS.bind (hinteger last (by simp [operands]))
      intro b
      exact hS.repeatFor (hbelow body (by simp [children])) (hsteps.assign rfl) _ _ a none
        (hsteps.stop rfl)
    | block statements line =>
      rw [eval]
      exact evalAll_of_steps hS hbelow none

end Expr

end BoundedScript
