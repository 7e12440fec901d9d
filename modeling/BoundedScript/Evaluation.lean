import BoundedScript.Environment
import BoundedScript.LoopGuard
import BoundedScript.Value.Arithmetic
import BoundedScript.Value.Comparison

/-! # Evaluation

Evaluating a tree may read and bind variables, and ends with a value, without one, or with an error.
An error leaves the environment as it was when the error arose. Every loop stops at its ceiling, so
evaluation always ends.
-/

namespace BoundedScript

/-- A computation that may fail and that acts on an environment, also when it fails. -/
abbrev EvalM : Type → Type := ExceptT RuntimeError (StateM Environment)

namespace EvalM

/-- The outcome of a computation and the environment that it leaves. -/
def outcome {α : Type} (x : EvalM α) (env : Environment) : Except RuntimeError α × Environment :=
  x env

def onLine {α : Type} (line : Nat) : Except Fault α → EvalM α
  | .ok a => pure a
  | .error fault => throw ⟨fault, line⟩

def lookup (name : String) (line : Nat) : EvalM Value := do
  match (← get).get? name with
  | some value => pure value
  | none => throw ⟨.unknownVariable name, line⟩

def assign (name : String) (value : Value) : EvalM Unit := modify (·.assign name value)

/-- Insists on a value, for use as an operand on the given line. -/
def valueOf (line : Nat) (x : EvalM (Option Value)) : EvalM Value := do
  match ← x with
  | some value => pure value
  | none => throw ⟨.missingValue, line⟩

def truthOf (line : Nat) (x : EvalM (Option Value)) : EvalM Bool := do
  onLine line (← valueOf line x).toBoolean

def integerOf (line : Nat) (x : EvalM (Option Value)) : EvalM Integer64 := do
  onLine line (← valueOf line x).toInteger

/-- Runs `body` as long as `condition` holds. An iteration is counted after its condition held and
before its body runs. The result is that of the last run of the body, or `last` if it never runs. -/
def repeatWhile (guard : LoopGuard) (condition : EvalM Bool) (body : EvalM (Option Value))
    (last : Option Value) : EvalM (Option Value) := do
  if ← condition then
    if _h : guard.advance.Allows then
      repeatWhile guard.advance condition body (← body)
    else throw guard.exceeded
  else return last
termination_by guard.limit - guard.count
decreasing_by
  simp only [LoopGuard.Allows, LoopGuard.advance] at *
  omega

/-- Runs `body` with `counter` bound to `n`, the integer after it and so on, `times` times. The
counter is bound before the iteration is counted, and what the body does to it does not matter. -/
def repeatFor (guard : LoopGuard) (counter : String) (body : EvalM (Option Value)) :
    (times : Nat) → (n : Integer64) → (last : Option Value) → EvalM (Option Value)
  | 0, _, last => return last
  | times + 1, n, _ => do
    assign counter (.integer n)
    if guard.advance.Allows then
      repeatFor guard.advance counter body times n.next (← body)
    else throw guard.exceeded

/-- Each turn of a loop ticks once, between its condition and its body. -/
theorem repeatWhile_eq_tick (guard : LoopGuard) (condition : EvalM Bool)
    (body : EvalM (Option Value)) (last : Option Value) :
    repeatWhile guard condition body last = (do
      if ← condition then
        match guard.tick with
        | (.ok (), next) => repeatWhile next condition body (← body)
        | (.error err, _) => throw err
      else return last) := by
  rw [repeatWhile]
  by_cases h : guard.advance.Allows
  · simp only [LoopGuard.tick, if_pos h, dif_pos h]
  · simp only [LoopGuard.tick, if_neg h, dif_neg h]

/-- Each pass of a loop over integers ticks once, between its binding and its body. -/
theorem repeatFor_eq_tick (guard : LoopGuard) (counter : String) (body : EvalM (Option Value))
    (times : Nat) (n : Integer64) (last : Option Value) :
    repeatFor guard counter body (times + 1) n last = (do
      assign counter (.integer n)
      match guard.tick with
      | (.ok (), next) => repeatFor next counter body times n.next (← body)
      | (.error err, _) => throw err) := by
  rw [repeatFor]
  by_cases h : guard.advance.Allows
  · simp only [LoopGuard.tick, if_pos h]
  · simp only [LoopGuard.tick, if_neg h]

end EvalM

open EvalM

namespace Expr

mutual

/-- Evaluates a tree in which each loop may run up to `limit` times. -/
def eval (limit : Nat) : Expr → EvalM (Option Value)
  | literal value _ => return some (.ofLiteral value)
  | var name line => do return some (← lookup name line)
  | arithmetic op left right line => do
    let x ← valueOf line (left.eval limit)
    let y ← valueOf line (right.eval limit)
    return some (← onLine line (Value.arithmetic op x y))
  | comparison op left right line => do
    let x ← valueOf line (left.eval limit)
    let y ← valueOf line (right.eval limit)
    return some (← onLine line (Value.comparison op x y))
  | logical op left right line => do
    let b ← truthOf line (left.eval limit)
    if b = op.decisive then return some (.boolean b)
    else return some (.boolean (← truthOf line (right.eval limit)))
  | unary op operand line => do
    let x ← valueOf line (operand.eval limit)
    return some (← onLine line (Value.unary op x))
  | assignment name value line => do
    let x ← valueOf line (value.eval limit)
    assign name x
    return none
  | conditional condition thenBranch elseBranch line => do
    if ← truthOf line (condition.eval limit) then thenBranch.eval limit
    else
      match elseBranch with
      | some branch => branch.eval limit
      | none => return none
  | whileLoop condition body line =>
    repeatWhile ⟨limit, line, 0⟩ (truthOf line (condition.eval limit)) (body.eval limit) none
  | forLoop counter first last body line => do
    let a ← integerOf line (first.eval limit)
    let b ← integerOf line (last.eval limit)
    let times := (b.toInt - a.toInt + 1).toNat
    repeatFor ⟨limit, line, 0⟩ counter (body.eval limit) times a none
  | block statements _ => evalAll limit none statements

/-- Evaluates statements in order. The result is that of the last one, or `last` if there is
none. -/
def evalAll (limit : Nat) (last : Option Value) : List Expr → EvalM (Option Value)
  | [] => return last
  | e :: es => do evalAll limit (← e.eval limit) es

end

end Expr

end BoundedScript
