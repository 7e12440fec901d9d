import BoundedScript.Expr
import BoundedScript.LoopGuard
import Mathlib.Data.Rat.Floor

/-!
# Evaluation over the integers

The rules of evaluation with all integers in place of those of 64 bits. Nothing overflows, floor
division is the floor of the quotient and a power is a power. A run also lists the integers that its
operations computed, so that one can say of a run how large its numbers got.

There are no reals here. A division, which would leave the integers, fails, and a power takes its
exponent to be no less than zero.
-/

namespace BoundedScript.Exact

inductive Value where
  | integer (n : ℤ)
  | boolean (b : Bool)
  deriving DecidableEq, Repr

def Value.kind : Value → Kind
  | integer _ => .integer
  | boolean _ => .boolean

abbrev Environment : Type := String → Option Value

/-- How a run ends, the variables that it leaves and the integers that its operations computed. -/
structure Run (α : Type) where
  result : Except RuntimeError α
  environment : Environment
  computed : List ℤ

def ExactM (α : Type) : Type := Environment → Run α

namespace ExactM

variable {α β : Type}

def bind (x : ExactM α) (f : α → ExactM β) : ExactM β := fun env =>
  match x env with
  | ⟨.ok a, env', computed⟩ =>
    let run := f a env'
    { run with computed := computed ++ run.computed }
  | ⟨.error err, env', computed⟩ => ⟨.error err, env', computed⟩

instance : Monad ExactM where
  pure a := fun env => ⟨.ok a, env, []⟩
  bind := bind

theorem run_bind_of_ok {x : ExactM α} {f : α → ExactM β} {env env' : Environment} {a : α}
    {computed : List ℤ} (h : x env = ⟨.ok a, env', computed⟩) :
    (x >>= f) env = { f a env' with computed := computed ++ (f a env').computed } := by
  change bind x f env = _
  rw [bind, h]

theorem run_bind_of_error {x : ExactM α} {f : α → ExactM β} {env env' : Environment}
    {err : RuntimeError} {computed : List ℤ} (h : x env = ⟨.error err, env', computed⟩) :
    (x >>= f) env = ⟨.error err, env', computed⟩ := by
  change bind x f env = _
  rw [bind, h]

theorem computed_subset_bind (x : ExactM α) (f : α → ExactM β) (env : Environment) :
    (x env).computed ⊆ ((x >>= f) env).computed := by
  rcases h : x env with ⟨err | a, env', computed⟩
  · rw [run_bind_of_error h]
    exact List.Subset.refl computed
  · rw [run_bind_of_ok h]
    exact List.subset_append_left computed _

def fail (err : RuntimeError) : ExactM α := fun env => ⟨.error err, env, []⟩

/-- Puts an integer that an operation computed on record. -/
def compute (n : ℤ) : ExactM Value := fun env => ⟨.ok (.integer n), env, [n]⟩

def lookup (name : String) (line : Nat) : ExactM Value := fun env =>
  match env name with
  | some value => ⟨.ok value, env, []⟩
  | none => ⟨.error ⟨.unknownVariable name, line⟩, env, []⟩

def assign (name : String) (value : Value) : ExactM Unit := fun env =>
  ⟨.ok (), Function.update env name (some value), []⟩

def valueOf (line : Nat) (x : ExactM (Option Value)) : ExactM Value := do
  match ← x with
  | some value => pure value
  | none => fail ⟨.missingValue, line⟩

def truthOf (line : Nat) (x : ExactM (Option Value)) : ExactM Bool := do
  match ← valueOf line x with
  | .boolean b => pure b
  | .integer _ => fail ⟨.expectedBoolean, line⟩

def integerOf (line : Nat) (x : ExactM (Option Value)) : ExactM ℤ := do
  match ← valueOf line x with
  | .integer n => pure n
  | .boolean _ => fail ⟨.expectedInteger, line⟩

def repeatWhile (guard : LoopGuard) (condition : ExactM Bool) (body : ExactM (Option Value))
    (last : Option Value) : ExactM (Option Value) := do
  if ← condition then
    if _h : guard.advance.Allows then
      repeatWhile guard.advance condition body (← body)
    else fail guard.exceeded
  else return last
termination_by guard.limit - guard.count
decreasing_by
  simp only [LoopGuard.Allows, LoopGuard.advance] at *
  omega

def repeatFor (guard : LoopGuard) (counter : String) (body : ExactM (Option Value)) :
    (times : Nat) → (n : ℤ) → (last : Option Value) → ExactM (Option Value)
  | 0, _, last => return last
  | times + 1, n, _ => do
    assign counter (.integer n)
    if guard.advance.Allows then
      repeatFor guard.advance counter body times (n + 1) (← body)
    else fail guard.exceeded

end ExactM

open ExactM

def arithmetic (line : Nat) : ArithmeticOp → Value → Value → ExactM Value
  | .add, .integer a, .integer b => compute (a + b)
  | .sub, .integer a, .integer b => compute (a - b)
  | .mul, .integer a, .integer b => compute (a * b)
  | .div, .integer _, .integer _ => fail ⟨.expectedInteger, line⟩
  | .floorDiv, .integer a, .integer b =>
    if b = 0 then fail ⟨.divisionByZero, line⟩ else compute ⌊(a : ℚ) / b⌋
  | .pow, .integer a, .integer b => compute (a ^ b.toNat)
  | op, x, y => fail ⟨.typeError (.arithmetic op x.kind y.kind), line⟩

theorem arithmetic_boolean_left (line : Nat) (op : ArithmeticOp) (b : Bool) (y : Value) :
    arithmetic line op (.boolean b) y =
      fail ⟨.typeError (.arithmetic op .boolean y.kind), line⟩ := by
  cases op <;> rfl

theorem arithmetic_boolean_right (line : Nat) (op : ArithmeticOp) (x : Value) (b : Bool) :
    arithmetic line op x (.boolean b) =
      fail ⟨.typeError (.arithmetic op x.kind .boolean), line⟩ := by
  cases x <;> cases op <;> rfl

def holds : ComparisonOp → ℤ → ℤ → Bool
  | .eq, a, b => a = b
  | .ne, a, b => a ≠ b
  | .lt, a, b => a < b
  | .gt, a, b => b < a
  | .le, a, b => a ≤ b
  | .ge, a, b => b ≤ a

def comparison (line : Nat) : ComparisonOp → Value → Value → ExactM Value
  | op, .integer a, .integer b => pure (.boolean (holds op a b))
  | .eq, x, y => pure (.boolean (x = y))
  | .ne, x, y => pure (.boolean (x ≠ y))
  | op, x, y => fail ⟨.typeError (.comparison op x.kind y.kind), line⟩

def unary (line : Nat) : UnaryOp → Value → ExactM Value
  | .not, .boolean b => pure (.boolean !b)
  | .not, .integer _ => fail ⟨.expectedBoolean, line⟩
  | .negate, .integer n => compute (-n)
  | .negate, .boolean _ => fail ⟨.typeError .negatedBoolean, line⟩

mutual

/-- Evaluates a tree over the integers, with each loop running up to `limit` times. -/
def eval (limit : Nat) : Expr → ExactM (Option Value)
  | .literal (.integer n) _ => return some (.integer n.toInt)
  | .literal (.boolean b) _ => return some (.boolean b)
  | .var name line => do return some (← lookup name line)
  | .arithmetic op left right line => do
    let x ← valueOf line (eval limit left)
    let y ← valueOf line (eval limit right)
    return some (← arithmetic line op x y)
  | .comparison op left right line => do
    let x ← valueOf line (eval limit left)
    let y ← valueOf line (eval limit right)
    return some (← comparison line op x y)
  | .logical .and left right line => do
    if ← truthOf line (eval limit left) then
      return some (.boolean (← truthOf line (eval limit right)))
    else return some (.boolean false)
  | .logical .or left right line => do
    if ← truthOf line (eval limit left) then return some (.boolean true)
    else return some (.boolean (← truthOf line (eval limit right)))
  | .unary op operand line => do
    let x ← valueOf line (eval limit operand)
    return some (← unary line op x)
  | .assignment name value line => do
    let x ← valueOf line (eval limit value)
    assign name x
    return none
  | .conditional condition thenBranch elseBranch line => do
    if ← truthOf line (eval limit condition) then eval limit thenBranch
    else
      match elseBranch with
      | some branch => eval limit branch
      | none => return none
  | .whileLoop condition body line =>
    repeatWhile ⟨limit, line, 0⟩ (truthOf line (eval limit condition)) (eval limit body) none
  | .forLoop counter first last body line => do
    let a ← integerOf line (eval limit first)
    let b ← integerOf line (eval limit last)
    repeatFor ⟨limit, line, 0⟩ counter (eval limit body) (b - a + 1).toNat a none
  | .block statements _ => evalAll limit none statements

def evalAll (limit : Nat) (last : Option Value) : List Expr → ExactM (Option Value)
  | [] => return last
  | e :: es => do evalAll limit (← eval limit e) es

end

end BoundedScript.Exact
