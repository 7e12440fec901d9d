import BoundedScript.Value.Arithmetic
import BoundedScript.Value.Comparison

/-!
# Faults of operations

An operation on values complains about its operands or its result and about nothing else. Unknown
variables, missing values and loops that go on for too long are the business of evaluation.
-/

namespace BoundedScript

/-- Complaints about operands and results. -/
def Fault.isOperational : Fault → Bool
  | typeError _ | expectedBoolean | expectedInteger | divisionByZero | overflow => true
  | unknownVariable _ | missingValue | loopLimit _ => false

/-- The result is a complaint about operands and results, if it is one at all. -/
def Operational {α : Type} (result : Except Fault α) : Prop :=
  ∀ fault, result = .error fault → fault.isOperational = true

section

variable {α β : Type}

theorem operational_ok (a : α) : Operational (.ok a : Except Fault α) := by
  intro fault h
  cases h

theorem operational_error {fault : Fault} (h : fault.isOperational = true) :
    Operational (.error fault : Except Fault α) := by
  intro fault' hfault
  cases hfault
  exact h

theorem Operational.bind {x : Except Fault α} {f : α → Except Fault β} (hx : Operational x)
    (hf : ∀ a, Operational (f a)) : Operational (x >>= f) := by
  cases x with
  | error fault => exact operational_error (hx fault rfl)
  | ok a => exact hf a

end

namespace Value

theorem operational_toReal (v : Value) : Operational v.toReal := by
  cases v with
  | integer | real => exact operational_ok _
  | boolean => exact operational_error rfl

theorem operational_toInteger (v : Value) : Operational v.toInteger := by
  cases v with
  | integer => exact operational_ok _
  | real | boolean => exact operational_error rfl

theorem operational_toBoolean (v : Value) : Operational v.toBoolean := by
  cases v with
  | boolean => exact operational_ok _
  | integer | real => exact operational_error rfl

theorem operational_checked (result : Option Integer64) : Operational (checked result) := by
  cases result with
  | none => exact operational_error rfl
  | some n => exact operational_ok _

theorem operational_ofInt (n : Int) : Operational (ofInt n) := operational_checked _

theorem operational_onReals (op : ArithmeticOp) (x y : Binary64) :
    Operational (onReals op x y) := by
  cases op with
  | add | sub | mul => exact operational_ok _
  | div | floorDiv =>
    simp only [onReals]
    split
    · exact operational_error rfl
    · exact operational_ok _
  | pow =>
    simp only [onReals]
    split
    · exact operational_error rfl
    · split
      · exact operational_error rfl
      · exact operational_ok _

theorem operational_onNumbers (op : ArithmeticOp) (x y : Value) :
    Operational (onNumbers op x y) := by
  unfold onNumbers
  split
  · exact operational_ofInt _
  · exact operational_ofInt _
  · exact operational_ofInt _
  · split
    · exact operational_error rfl
    · exact operational_checked _
  · split
    · exact operational_checked _
    · exact operational_onReals _ _ _
  · exact (operational_toReal _).bind fun _ => (operational_toReal _).bind fun _ =>
      operational_onReals _ _ _

theorem operational_arithmetic (op : ArithmeticOp) (x y : Value) :
    Operational (arithmetic op x y) := by
  unfold arithmetic
  split
  · exact operational_onNumbers op x y
  · exact operational_error rfl

theorem operational_comparison (op : ComparisonOp) (x y : Value) :
    Operational (comparison op x y) := by
  unfold comparison
  split
  · exact operational_ok _
  · exact operational_ok _
  · split
    · exact operational_ok _
    · exact operational_error rfl

theorem operational_unary (op : UnaryOp) (v : Value) : Operational (unary op v) := by
  cases op with
  | not => exact (operational_toBoolean v).bind fun _ => operational_ok _
  | negate =>
    cases v with
    | integer n => exact operational_ofInt _
    | real x => exact operational_ok _
    | boolean b => exact operational_error rfl

end Value

end BoundedScript
