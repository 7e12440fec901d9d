import BoundedScript.Proofs.Evaluation.Blame
import BoundedScript.Proofs.Evaluation.Footprint

/-!
# Unknown variables

A run that complains about an unknown variable has come to an operand with that name, on that line,
and nothing has bound the name so far. Bindings are never removed, so the name was unbound from the
start. It takes no look at the branches and loops of a program to rule the complaint out: it is
enough that every variable is bound that the program mentions.
-/

namespace BoundedScript

namespace EvalM

variable {α β : Type}

/-- A complaint about an unknown variable leaves that variable unbound. -/
def MissesUnbound (x : EvalM α) : Prop :=
  ∀ env name line env', x.outcome env = (.error ⟨.unknownVariable name, line⟩, env') →
    env'.get? name = none

theorem missesUnbound_pure (a : α) : MissesUnbound (pure a : EvalM α) := by
  intro env name line env' h
  cases h

theorem missesUnbound_throw {err : RuntimeError}
    (herr : ∀ name, err.fault ≠ .unknownVariable name) : MissesUnbound (throw err : EvalM α) := by
  intro env name line env' h
  cases h
  exact absurd rfl (herr name)

theorem missesUnbound_assign (name : String) (value : Value) :
    MissesUnbound (assign name value) := by
  intro env other line env' h
  cases h

theorem missesUnbound_lookup (name : String) (line : Nat) : MissesUnbound (lookup name line) := by
  intro env other line' env' h
  rw [outcome_lookup] at h
  cases hget : env.get? name with
  | some value =>
    rw [hget] at h
    cases h
  | none =>
    rw [hget] at h
    cases h
    exact hget

theorem MissesUnbound.bind {x : EvalM α} {f : α → EvalM β} (hx : MissesUnbound x)
    (hf : ∀ a, MissesUnbound (f a)) : MissesUnbound (x >>= f) := by
  intro env name line env' h
  rcases error_or_exists_of_outcome_bind_error h with h | ⟨a, mid, -, h⟩
  · exact hx env name line env' h
  · exact hf a mid name line env' h

theorem sequential_missesUnbound : Sequential fun _ => MissesUnbound :=
  ⟨missesUnbound_pure, MissesUnbound.bind⟩

end EvalM

open EvalM

namespace Expr

variable {limit : Nat} {env env' : Environment} {name : String} {line : Nat}

/-- Only a look-up complains about unknown variables. -/
theorem missesUnbound_steps (node : Expr) :
    node.StepsHave (fun _ => MissesUnbound) limit where
  valueOf _ _ hvalue := sequential_missesUnbound.valueOf hvalue (missesUnbound_throw (by simp))
  onLine hresult := by
    apply sequential_missesUnbound.onLine hresult
    intro fault hfault
    apply missesUnbound_throw
    rintro name rfl
    cases hfault
  lookup _ := missesUnbound_lookup _ _
  assign _ value := missesUnbound_assign _ value
  stop _ := missesUnbound_throw (by simp)

theorem unbound_after_unknownVariable {e : Expr}
    (h : (e.eval limit).outcome env = (.error ⟨.unknownVariable name, line⟩, env')) :
    env'.get? name = none :=
  eval_of_steps sequential_missesUnbound e (fun node _ => node.missesUnbound_steps) _ _ _ _ h

/-- What a run leaves unbound was unbound before. -/
theorem unbound_of_outcome {e : Expr} {result : Except RuntimeError (Option Value)}
    (h : (e.eval limit).outcome env = (result, env')) (hname : env'.get? name = none) :
    env.get? name = none := by
  have hconfined : Confined e.Reads e.Writes (e.eval limit) :=
    e.eval_confined ⟨fun _ => id, fun _ => id⟩
  obtain ⟨_, changes, -, hrun⟩ := hconfined env
  have hchanges := hrun env (.refl _ _)
  rw [h] at hchanges
  cases hchanges
  rw [Environment.get?_override, Option.or_eq_none_iff] at hname
  exact hname.2

theorem var_mem_of_unknownVariable {e : Expr}
    (h : (e.eval limit).outcome env = (.error ⟨.unknownVariable name, line⟩, env')) :
    var name line ∈ e.nodes := by
  obtain ⟨node, hnode, hline, _, rfl⟩ := e.blames_eval env _ env' h
  cases hline
  exact hnode

end Expr

/-- A complaint about an unknown variable names an operand of the tree that no binding has reached
from the start of the run to its end. There is none if all operands are bound at the start. -/
theorem unknown_variable_is_never_bound (e : Expr) (limit : Nat) (env : Environment) :
    (∀ name line env',
      (e.eval limit).outcome env = (.error ⟨.unknownVariable name, line⟩, env') →
        .var name line ∈ e.nodes ∧ env.contains name = false ∧ env'.contains name = false) ∧
    ((∀ name, e.Reads name → env.contains name = true) →
      ∀ name line, ((e.eval limit).outcome env).1 ≠ .error ⟨.unknownVariable name, line⟩) := by
  have hunbound (name : String) (line : Nat) (env' : Environment)
      (h : (e.eval limit).outcome env = (.error ⟨.unknownVariable name, line⟩, env')) :
      Expr.var name line ∈ e.nodes ∧ env.contains name = false ∧ env'.contains name = false := by
    have hafter := Expr.unbound_after_unknownVariable h
    have hbefore := Expr.unbound_of_outcome h hafter
    refine ⟨Expr.var_mem_of_unknownVariable h, ?_, ?_⟩
    · rw [Environment.contains_eq_isSome, hbefore, Option.isSome_none]
    · rw [Environment.contains_eq_isSome, hafter, Option.isSome_none]
  refine ⟨hunbound, ?_⟩
  intro hreads name line herror
  obtain ⟨hvar, hbefore, -⟩ := hunbound name line _ (Prod.ext herror rfl)
  rw [hreads name ⟨line, hvar⟩] at hbefore
  cases hbefore

/-- The first run has bound `i` and `y` by the time it comes to `q`. The second finds all three
bound and fails for another reason. -/
theorem unknown_variable_after_loop_is_never_bound :
    let e : Expr := .block [
      .forLoop "i" (.literal (.integer ⟨1, by decide, by decide⟩) 1)
        (.literal (.integer ⟨2, by decide, by decide⟩) 1)
        (.block [.assignment "y" (.var "i" 2) 2] 1) 1,
      .arithmetic .add (.var "y" 4) (.var "q" 4) 4] 1
    let env := (((∅ : Environment).assign "i" (.boolean false)).assign "y" (.boolean false)).assign
      "q" (.boolean false)
    ((e.eval 2).outcome ∅).1 = .error ⟨.unknownVariable "q", 4⟩ ∧
      ((e.eval 2).outcome ∅).2.contains "y" = true ∧
      .var "q" 4 ∈ e.nodes ∧ (∅ : Environment).contains "q" = false ∧
      ((e.eval 2).outcome ∅).2.contains "q" = false ∧
      ∀ name line, ((e.eval 2).outcome env).1 ≠ .error ⟨.unknownVariable name, line⟩ := by
  intro e env
  have herror : ((e.eval 2).outcome ∅).1 = .error ⟨.unknownVariable "q", 4⟩ := rfl
  have hloop : ((e.eval 2).outcome ∅).2.contains "y" = true := by decide +kernel
  have hreads : ∀ name, e.Reads name → env.contains name = true := by
    rintro name ⟨line, hline⟩
    obtain ⟨rfl, -⟩ | ⟨rfl, -⟩ | ⟨rfl, -⟩ :
        (name = "i" ∧ line = 2) ∨ (name = "y" ∧ line = 4) ∨ (name = "q" ∧ line = 4) := by
      simpa [e, Expr.nodes, Expr.nodesAll] using hline
    all_goals simp [env]
  obtain ⟨hvar, hbefore, hafter⟩ :=
    (unknown_variable_is_never_bound e 2 ∅).1 "q" 4 _ (Prod.ext herror rfl)
  exact ⟨herror, hloop, hvar, hbefore, hafter, (unknown_variable_is_never_bound e 2 env).2 hreads⟩

end BoundedScript
