import BoundedScript.Proofs.Evaluation.Invariant

/-!
# Where errors come from

Every error of a run is raised by a node of the tree and names the line of that node. What it
complains about fits the node: only a variable can be unknown, by its own name, and only a loop can
reach a ceiling, which is then the one of the run.
-/

namespace BoundedScript

namespace Expr

/-- The node can have raised the fault. Operands may be unfit or missing at any node. -/
def CanRaise (limit : Nat) (node : Expr) : Fault → Prop
  | .unknownVariable name => ∃ line, node = var name line
  | .loopLimit n => n = limit ∧ node.isLoop = true
  | .typeError _ | .expectedBoolean | .expectedInteger | .missingValue | .divisionByZero
  | .overflow => True

/-- A node of the tree can have raised the error on the line that the error names. -/
def Reports (limit : Nat) (e : Expr) (err : RuntimeError) : Prop :=
  ∃ node ∈ e.nodes, node.line = err.line ∧ node.CanRaise limit err.fault

theorem reports_of_canRaise {limit : Nat} {e node : Expr} {fault : Fault} (h : node ∈ e.nodes)
    (hraise : node.CanRaise limit fault) : e.Reports limit ⟨fault, node.line⟩ :=
  ⟨node, h, rfl, hraise⟩

end Expr

namespace EvalM

variable {α β : Type} {P : RuntimeError → Prop}

/-- All errors of the computation are of the given kind. -/
def Blames (P : RuntimeError → Prop) (x : EvalM α) : Prop :=
  ∀ env err env', x.outcome env = (.error err, env') → P err

/-- The kind of errors includes complaints about operands on the given line. -/
def CoversOperands (P : RuntimeError → Prop) (line : Nat) : Prop :=
  P ⟨.missingValue, line⟩ ∧ ∀ fault, fault.isOperational = true → P ⟨fault, line⟩

theorem blames_pure (a : α) : Blames P (pure a : EvalM α) := by
  intro env err env' h
  cases h

theorem blames_throw {err : RuntimeError} (h : P err) : Blames P (throw err : EvalM α) := by
  intro env err' env' herr
  cases herr
  exact h

theorem blames_assign (name : String) (value : Value) : Blames P (assign name value) := by
  intro env err env' h
  cases h

theorem blames_lookup {name : String} {line : Nat} (h : P ⟨.unknownVariable name, line⟩) :
    Blames P (lookup name line) := by
  intro env err env' herr
  rw [outcome_lookup] at herr
  cases hget : env.get? name with
  | some value =>
    rw [hget] at herr
    cases herr
  | none =>
    rw [hget] at herr
    cases herr
    exact h

theorem Blames.bind {x : EvalM α} {f : α → EvalM β} (hx : Blames P x)
    (hf : ∀ a, Blames P (f a)) : Blames P (x >>= f) := by
  intro env err env' h
  rcases error_or_exists_of_outcome_bind_error h with h | ⟨a, mid, -, h⟩
  · exact hx env err env' h
  · exact hf a mid err env' h

theorem sequential_blames : Sequential fun _ => Blames P := ⟨blames_pure, Blames.bind⟩

section

variable {line : Nat} {x : EvalM (Option Value)}

theorem blames_onLine {result : Except Fault α} (hr : Operational result)
    (hline : CoversOperands P line) : Blames P (onLine line result) :=
  sequential_blames.onLine hr fun fault hfault => blames_throw (hline.2 fault hfault)

theorem Blames.valueOf (h : Blames P x) (hline : CoversOperands P line) :
    Blames P (valueOf line x) :=
  sequential_blames.valueOf h (blames_throw hline.1)

end

end EvalM

open EvalM

namespace Expr

variable {limit : Nat} {e node : Expr}

theorem coversOperands (h : node ∈ e.nodes) : CoversOperands (e.Reports limit) node.line := by
  constructor
  · exact reports_of_canRaise h trivial
  · intro fault hfault
    apply reports_of_canRaise h
    cases fault with
    | unknownVariable | missingValue | loopLimit => cases hfault
    | _ => trivial

/-- No step of a node blames another node. -/
theorem blames_steps (h : node ∈ e.nodes) :
    node.StepsHave (fun _ => Blames (e.Reports limit)) limit where
  valueOf _ _ hvalue := hvalue.valueOf (coversOperands h)
  onLine hresult := blames_onLine hresult (coversOperands h)
  lookup {name line} hnode := by
    subst hnode
    exact blames_lookup (reports_of_canRaise h ⟨line, rfl⟩)
  assign _ value := blames_assign _ value
  stop hloop := blames_throw (reports_of_canRaise h ⟨rfl, hloop⟩)

theorem blames_eval (e : Expr) : Blames (e.Reports limit) (e.eval limit) :=
  eval_of_steps sequential_blames e fun _ => blames_steps

end Expr

end BoundedScript
