import BoundedScript.Proofs.Evaluation.Outcome
import BoundedScript.Proofs.Exact.Evaluation
import BoundedScript.Proofs.Tree
import BoundedScript.Proofs.Value.Integers

/-!
# Integer programs are exact

A program that starts with integers and booleans, divides only by flooring and raises only to
literal exponents never leaves the integers. Evaluation then agrees with evaluation over all
integers until a result does not fit in 64 bits, and there it stops with an overflow.
-/

namespace BoundedScript

/-- The node itself takes integers to integers. -/
def Expr.StaysIntegral : Expr → Prop
  | .arithmetic .div _ _ _ => False
  | .arithmetic .pow _ right _ => ∃ n line, right = .literal (.integer n) line ∧ 0 ≤ n.toInt
  | _ => True

def Expr.IsIntegral (e : Expr) : Prop := ∀ node ∈ e.nodes, node.StaysIntegral

theorem Expr.IsIntegral.node {e : Expr} (h : e.IsIntegral) : e.StaysIntegral :=
  (Expr.forall_nodes_iff.mp h).1

theorem Expr.IsIntegral.below {e : Expr} (h : e.IsIntegral) :
    ∀ child ∈ e.children, child.IsIntegral :=
  (Expr.forall_nodes_iff.mp h).2

def Environment.IsIntegral (env : Environment) : Prop := ∀ name x, env.get? name ≠ some (.real x)

namespace Exact

inductive Agrees : BoundedScript.Value → Value → Prop
  | integer (n : Integer64) : Agrees (.integer n) (.integer n.toInt)
  | boolean (b : Bool) : Agrees (.boolean b) (.boolean b)

theorem Agrees.kind_eq {v : BoundedScript.Value} {w : Value} (h : Agrees v w) :
    w.kind = v.kind := by
  cases h <;> rfl

def EnvAgrees (env : BoundedScript.Environment) (exact : Environment) : Prop :=
  ∀ name, Option.Rel Agrees (env.get? name) (exact name)

/-- The same variables with integers that have no bounds. Reals are left out. -/
def exactly (env : BoundedScript.Environment) : Environment := fun name =>
  (env.get? name).bind fun
    | .integer n => some (.integer n.toInt)
    | .boolean b => some (.boolean b)
    | .real _ => none

/-- Both results are values, related by `R`, or both are the same error, which is no overflow. -/
inductive ResultAgrees {α β : Type} (R : α → β → Prop) :
    Except RuntimeError α → Except RuntimeError β → Prop
  | ok {a : α} {b : β} (h : R a b) : ResultAgrees R (.ok a) (.ok b)
  | error {err : RuntimeError} (h : err.fault ≠ .overflow) :
      ResultAgrees R (.error err) (.error err)

def Overflows {α : Type} (result : Except RuntimeError α) : Prop :=
  ∃ line, result = .error ⟨.overflow, line⟩

theorem ResultAgrees.mono {α β : Type} {R S : α → β → Prop} {result : Except RuntimeError α}
    {result' : Except RuntimeError β} (h : ResultAgrees R result result')
    (hR : ∀ a b, R a b → S a b) : ResultAgrees S result result' := by
  cases h with
  | ok h => exact .ok (hR _ _ h)
  | error h => exact .error h

theorem ResultAgrees.not_overflows {α β : Type} {R : α → β → Prop} {result : Except RuntimeError α}
    {result' : Except RuntimeError β} (h : ResultAgrees R result result') : ¬ Overflows result := by
  intro ho
  obtain ⟨line, rfl⟩ := ho
  cases h with
  | error h => exact h rfl

theorem ResultAgrees.not_real {result : Except RuntimeError (Option BoundedScript.Value)}
    {result' : Except RuntimeError (Option Value)}
    (h : ResultAgrees (Option.Rel Agrees) result result') (x : Binary64) :
    result ≠ .ok (some (.real x)) := by
  intro hx
  subst hx
  cases h with
  | ok h =>
    cases h with
    | some h => cases h

/-- Every run of `x` either agrees with that of `y` or overflows, and then `y` computed an integer
that has no place in 64 bits. -/
def Refines {α β : Type} (R : α → β → Prop) (x : EvalM α) (y : ExactM β) : Prop :=
  ∀ env exact, EnvAgrees env exact →
    (Overflows (x.outcome env).1 ∧ ∃ n ∈ (y exact).computed, ¬ InRange n) ∨
    (ResultAgrees R (x.outcome env).1 (y exact).result ∧
      EnvAgrees (x.outcome env).2 (y exact).environment)

section

variable {α β α' β' : Type} {R : α → α' → Prop} {S : β → β' → Prop}

theorem refines_pure {a : α} {a' : α'} (h : R a a') : Refines R (pure a) (pure a') := by
  intro env exact henv
  exact .inr ⟨.ok h, henv⟩

theorem refines_fail {err : RuntimeError} (h : err.fault ≠ .overflow) :
    Refines R (throw err) (ExactM.fail err) := by
  intro env exact henv
  exact .inr ⟨.error h, henv⟩

theorem Refines.mono {R' : α → α' → Prop} {x : EvalM α} {y : ExactM α'} (h : Refines R x y)
    (hR : ∀ a a', R a a' → R' a a') : Refines R' x y := by
  intro env exact henv
  rcases h env exact henv with ho | ⟨hres, henv'⟩
  · exact .inl ho
  · exact .inr ⟨hres.mono hR, henv'⟩

theorem Refines.bind {x : EvalM α} {y : ExactM α'} {f : α → EvalM β} {g : α' → ExactM β'}
    (h : Refines R x y) (hf : ∀ a a', R a a' → Refines S (f a) (g a')) :
    Refines S (x >>= f) (y >>= g) := by
  intro env exact henv
  rcases hx : x.outcome env with ⟨result, env'⟩
  rcases hy : y exact with ⟨result', exact', computed⟩
  have hxy := h env exact henv
  rw [hx, hy] at hxy
  rcases hxy with ⟨⟨line, ho⟩, n, hn, hr⟩ | ⟨hres, henv'⟩
  · simp only at ho hn
    subst ho
    left
    rw [EvalM.outcome_bind_of_error hx]
    refine ⟨⟨line, rfl⟩, n, ?_, hr⟩
    apply ExactM.computed_subset_bind y g exact
    rw [hy]
    exact hn
  · cases hres with
    | error herr =>
      rw [EvalM.outcome_bind_of_error hx, ExactM.run_bind_of_error hy]
      exact .inr ⟨.error herr, henv'⟩
    | ok hab =>
      rw [EvalM.outcome_bind_of_ok hx, ExactM.run_bind_of_ok hy]
      rcases hf _ _ hab env' exact' henv' with ⟨ho, n, hn, hr⟩ | hagree
      · exact .inl ⟨ho, n, List.mem_append_right _ hn, hr⟩
      · exact .inr hagree

end

/-! ### Operations -/

/-- The check of the range is where the two part: the exact integer is on record either way. -/
theorem refines_ofInt (line : Nat) (n : ℤ) :
    Refines Agrees (EvalM.onLine line (Value.ofInt n)) (ExactM.compute n) := by
  intro env exact henv
  by_cases hr : InRange n
  · obtain ⟨a, rfl⟩ := exists_of_inRange hr
    rw [Value.ofInt_toInt]
    exact .inr ⟨.ok (.integer a), henv⟩
  · rw [Value.ofInt_of_not_inRange hr]
    exact .inl ⟨⟨line, rfl⟩, n, List.mem_singleton_self n, hr⟩

theorem refines_lookup (name : String) (line : Nat) :
    Refines Agrees (EvalM.lookup name line) (ExactM.lookup name line) := by
  intro env exact henv
  have hname := henv name
  rw [EvalM.outcome_lookup, ExactM.lookup]
  cases hv : env.get? name with
  | none =>
    rw [hv] at hname
    cases hw : exact name with
    | some w =>
      rw [hw] at hname
      cases hname
    | none => exact .inr ⟨.error (by simp), henv⟩
  | some v =>
    rw [hv] at hname
    cases hw : exact name with
    | none =>
      rw [hw] at hname
      cases hname
    | some w =>
      rw [hw] at hname
      cases hname with
      | some hvw => exact .inr ⟨.ok hvw, henv⟩

section

variable {v v' : BoundedScript.Value} {w w' : Value}

theorem refines_assign (name : String) (h : Agrees v w) :
    Refines (fun _ _ => True) (EvalM.assign name v) (ExactM.assign name w) := by
  intro env exact henv
  refine .inr ⟨.ok trivial, ?_⟩
  intro other
  rw [EvalM.outcome_assign, Environment.get?_assign]
  by_cases hn : name = other
  · subst hn
    rw [if_pos rfl]
    simp only [ExactM.assign, Function.update_self]
    exact .some h
  · rw [if_neg hn]
    simp only [ExactM.assign, Function.update_of_ne (Ne.symm hn)]
    exact henv other

theorem refines_arithmetic_integers (line : Nat) {op : ArithmeticOp} {a b : Integer64}
    (hdiv : op ≠ .div) (hpow : op = .pow → 0 ≤ b.toInt) :
    Refines Agrees (EvalM.onLine line (Value.arithmetic op (.integer a) (.integer b)))
      (arithmetic line op (.integer a.toInt) (.integer b.toInt)) := by
  cases op with
  | div => exact absurd rfl hdiv
  | add | sub | mul =>
    rw [Value.arithmetic_of_onIntegers? rfl, arithmetic]
    exact refines_ofInt line _
  | floorDiv =>
    rw [arithmetic]
    by_cases hb : b.toInt = 0
    · rw [if_pos hb, Value.floorDiv_integer_zero a hb]
      exact refines_fail (by simp)
    · rw [if_neg hb, Value.arithmetic_of_onIntegers? (ArithmeticOp.onIntegers?_floorDiv _ hb)]
      exact refines_ofInt line _
  | pow =>
    rw [arithmetic,
      Value.arithmetic_of_onIntegers? (ArithmeticOp.onIntegers?_pow _ (hpow rfl))]
    exact refines_ofInt line _

theorem refines_arithmetic (line : Nat) {op : ArithmeticOp} (hv : Agrees v w) (hv' : Agrees v' w')
    (hdiv : op ≠ .div) (hpow : op = .pow → ∃ n : Integer64, v' = .integer n ∧ 0 ≤ n.toInt) :
    Refines Agrees (EvalM.onLine line (Value.arithmetic op v v')) (arithmetic line op w w') := by
  cases hv' with
  | boolean b =>
    rw [Value.arithmetic_boolean_right, arithmetic_boolean_right, hv.kind_eq]
    exact refines_fail (by simp)
  | integer b =>
    cases hv with
    | boolean a =>
      rw [Value.arithmetic_boolean_left, arithmetic_boolean_left]
      exact refines_fail (by simp)
    | integer a =>
      apply refines_arithmetic_integers line hdiv
      intro hop
      obtain ⟨n, hn, h0⟩ := hpow hop
      cases hn
      exact h0

theorem accepts_compare (op : ComparisonOp) (a b : ℤ) :
    op.accepts (some (compare a b)) = holds op a b := by
  rcases lt_trichotomy a b with h | rfl | h
  · rw [compare_lt_iff_lt.mpr h]
    cases op <;> simp [ComparisonOp.accepts, holds, h, h.le, h.ne]
  · rw [compare_eq_iff_eq.mpr rfl]
    cases op <;> simp [ComparisonOp.accepts, holds]
  · rw [compare_gt_iff_gt.mpr h]
    cases op <;> simp [ComparisonOp.accepts, holds, h, h.le, h.ne']

theorem refines_comparison_integers (line : Nat) (op : ComparisonOp) (a b : Integer64) :
    Refines Agrees (EvalM.onLine line (Value.comparison op (.integer a) (.integer b)))
      (comparison line op (.integer a.toInt) (.integer b.toInt)) := by
  have hequals : (a == b) = (some (compare a.toInt b.toInt) == some .eq) := by
    rw [Bool.eq_iff_iff]
    simp [Integer64.ext_iff]
  have hcompare : Value.comparison op (.integer a) (.integer b) =
      .ok (.boolean (op.accepts (some (compare a.toInt b.toInt)))) := by
    cases op with
    | eq | ne =>
      rw [Value.comparison, Value.equals, hequals]
      rfl
    | lt | gt | le | ge => rfl
  rw [hcompare, accepts_compare, comparison]
  exact refines_pure (.boolean _)

theorem refines_comparison (line : Nat) (op : ComparisonOp) (hv : Agrees v w) (hv' : Agrees v' w') :
    Refines Agrees (EvalM.onLine line (Value.comparison op v v')) (comparison line op w w') := by
  cases hv with
  | integer a =>
    cases hv' with
    | integer b => exact refines_comparison_integers line op a b
    | boolean b =>
      cases op with
      | eq | ne => exact refines_pure (.boolean _)
      | lt | gt | le | ge => exact refines_fail (by simp)
  | boolean a =>
    cases hv' with
    | integer b =>
      cases op with
      | eq | ne => exact refines_pure (.boolean _)
      | lt | gt | le | ge => exact refines_fail (by simp)
    | boolean b =>
      cases op with
      | eq | ne => cases a <;> cases b <;> exact refines_pure (.boolean _)
      | lt | gt | le | ge => exact refines_fail (by simp)

theorem refines_unary (line : Nat) (op : UnaryOp) (hv : Agrees v w) :
    Refines Agrees (EvalM.onLine line (Value.unary op v)) (unary line op w) := by
  cases hv with
  | integer n =>
    cases op with
    | not => exact refines_fail (by simp)
    | negate => exact refines_ofInt line _
  | boolean b =>
    cases op with
    | not => exact refines_pure (.boolean !b)
    | negate => exact refines_fail (by simp)

end

/-! ### Loops -/

section

variable {line : Nat} {x : EvalM (Option BoundedScript.Value)} {y : ExactM (Option Value)}

theorem Refines.valueOf (h : Refines (Option.Rel Agrees) x y) :
    Refines Agrees (EvalM.valueOf line x) (ExactM.valueOf line y) := by
  apply h.bind
  intro v w hvw
  cases hvw with
  | some hvw => exact refines_pure hvw
  | none => exact refines_fail (by simp)

theorem Refines.truthOf (h : Refines (Option.Rel Agrees) x y) :
    Refines Eq (EvalM.truthOf line x) (ExactM.truthOf line y) := by
  apply h.valueOf.bind
  intro v w hvw
  cases hvw with
  | boolean b => exact refines_pure rfl
  | integer n => exact refines_fail (by simp)

theorem Refines.integerOf (h : Refines (Option.Rel Agrees) x y) :
    Refines (fun (a : Integer64) n => a.toInt = n) (EvalM.integerOf line x)
      (ExactM.integerOf line y) := by
  apply h.valueOf.bind
  intro v w hvw
  cases hvw with
  | boolean b => exact refines_fail (by simp)
  | integer n => exact refines_pure rfl

variable {condition : EvalM Bool} {condition' : ExactM Bool}

theorem Refines.repeatWhile (hc : Refines Eq condition condition')
    (hb : Refines (Option.Rel Agrees) x y) (guard : LoopGuard) (last : Option BoundedScript.Value) :
    ∀ last', Option.Rel Agrees last last' →
      Refines (Option.Rel Agrees) (EvalM.repeatWhile guard condition x last)
        (ExactM.repeatWhile guard condition' y last') := by
  induction guard, last using EvalM.repeatWhile.induct with
  | case1 guard last ih =>
    intro last' hlast
    rw [EvalM.repeatWhile, ExactM.repeatWhile]
    refine hc.bind fun b b' hbb' => ?_
    subst hbb'
    cases b with
    | false => exact refines_pure hlast
    | true =>
      by_cases hn : guard.advance.Allows
      · simp only [if_true, dif_pos hn]
        exact hb.bind fun v w hvw => ih hn v w hvw
      · simp only [if_true, dif_neg hn]
        exact refines_fail (by simp [LoopGuard.exceeded])

/-- The counter of the last iteration may be the largest integer, and then has no successor. So the
two counters need to agree only as long as an iteration is left. -/
theorem Refines.repeatFor (hb : Refines (Option.Rel Agrees) x y) (counter : String) (times : Nat) :
    ∀ (guard : LoopGuard) (a : Integer64) (n : ℤ) (last : Option BoundedScript.Value)
      (last' : Option Value), (0 < times → a.toInt = n) → n + times ≤ 2 ^ 63 →
      Option.Rel Agrees last last' →
      Refines (Option.Rel Agrees) (EvalM.repeatFor guard counter x times a last)
        (ExactM.repeatFor guard counter y times n last') := by
  induction times with
  | zero =>
    intro guard a n last last' _ _ hlast
    exact refines_pure hlast
  | succ times ih =>
    intro guard a n last last' ha hn _
    rw [EvalM.repeatFor, ExactM.repeatFor]
    obtain rfl := ha (Nat.succ_pos times)
    refine (refines_assign counter (.integer a)).bind fun _ _ _ => ?_
    by_cases hg : guard.advance.Allows
    · rw [if_pos hg, if_pos hg]
      refine hb.bind fun v w hvw => ih guard.advance a.next (a.toInt + 1) v w ?_ ?_ hvw
      · intro ht
        exact Integer64.toInt_next (by omega)
      · omega
    · rw [if_neg hg, if_neg hg]
      exact refines_fail (by simp [LoopGuard.exceeded])

end

/-! ### Evaluation -/

variable {limit : Nat}

theorem refines_evalAll {es : List Expr}
    (h : ∀ e ∈ es, Refines (Option.Rel Agrees) (e.eval limit) (eval limit e)) :
    ∀ last last', Option.Rel Agrees last last' →
      Refines (Option.Rel Agrees) (Expr.evalAll limit last es) (evalAll limit last' es) := by
  induction es with
  | nil =>
    intro last last' hlast
    rw [Expr.evalAll, evalAll]
    exact refines_pure hlast
  | cons e es ih =>
    intro last last' _
    rw [Expr.evalAll, evalAll]
    refine (h e (by simp)).bind fun v w hvw => ih ?_ v w hvw
    intro e' he'
    exact h e' (by simp [he'])

/-- The right operand of a power is a literal, and its value is known. -/
theorem refines_operand {op : ArithmeticOp} {left right : Expr} {line : Nat}
    (h : (Expr.arithmetic op left right line).StaysIntegral)
    (hr : Refines Agrees (EvalM.valueOf line (right.eval limit))
      (ExactM.valueOf line (eval limit right))) :
    Refines (fun v w => Agrees v w ∧ (op = .pow → ∃ n : Integer64, v = .integer n ∧ 0 ≤ n.toInt))
      (EvalM.valueOf line (right.eval limit)) (ExactM.valueOf line (eval limit right)) := by
  by_cases hop : op = .pow
  · subst hop
    obtain ⟨n, line', rfl, hn⟩ := h
    rw [Expr.eval, eval]
    exact refines_pure ⟨.integer n, fun _ => ⟨n, rfl, hn⟩⟩
  · exact hr.mono fun v w hvw => ⟨hvw, fun h => absurd h hop⟩

theorem refines_eval (limit : Nat) (e : Expr) (he : e.IsIntegral) :
    Refines (Option.Rel Agrees) (e.eval limit) (eval limit e) := by
  induction e with
  | literal value line =>
    cases value with
    | integer n =>
      rw [Expr.eval, eval]
      exact refines_pure (.some (.integer n))
    | boolean b =>
      rw [Expr.eval, eval]
      exact refines_pure (.some (.boolean b))
  | var name line =>
    rw [Expr.eval, eval]
    exact (refines_lookup name line).bind fun v w hvw => refines_pure (.some hvw)
  | arithmetic op left right line ihl ihr =>
    have hnode := he.node
    obtain ⟨hl, hr⟩ : left.IsIntegral ∧ right.IsIntegral := by
      simpa [Expr.children] using he.below
    rw [Expr.eval, eval]
    refine (ihl hl).valueOf.bind fun v w hvw => ?_
    refine (refines_operand hnode (ihr hr).valueOf).bind fun v' w' hvw' => ?_
    have hdiv : op ≠ .div := by
      rintro rfl
      exact hnode
    apply (refines_arithmetic line hvw hvw'.1 hdiv hvw'.2).bind
    intro v w hvw
    exact refines_pure (.some hvw)
  | comparison op left right line ihl ihr =>
    obtain ⟨hl, hr⟩ : left.IsIntegral ∧ right.IsIntegral := by
      simpa [Expr.children] using he.below
    rw [Expr.eval, eval]
    refine (ihl hl).valueOf.bind fun v w hvw => (ihr hr).valueOf.bind fun v' w' hvw' => ?_
    exact (refines_comparison line op hvw hvw').bind fun v w hvw => refines_pure (.some hvw)
  | logical op left right line ihl ihr =>
    obtain ⟨hl, hr⟩ : left.IsIntegral ∧ right.IsIntegral := by
      simpa [Expr.children] using he.below
    have hright : Refines (Option.Rel Agrees)
        (do return some (.boolean (← EvalM.truthOf line (right.eval limit))))
        (do return some (.boolean (← ExactM.truthOf line (eval limit right)))) := by
      refine (ihr hr).truthOf.bind fun c c' hc => ?_
      subst hc
      exact refines_pure (.some (.boolean c))
    cases op with
    | and =>
      rw [Expr.eval, eval]
      refine (ihl hl).truthOf.bind fun b b' hb => ?_
      subst hb
      cases b with
      | true => exact hright
      | false => exact refines_pure (.some (.boolean false))
    | or =>
      rw [Expr.eval, eval]
      refine (ihl hl).truthOf.bind fun b b' hb => ?_
      subst hb
      cases b with
      | true => exact refines_pure (.some (.boolean true))
      | false => exact hright
  | unary op operand line ih =>
    have ho : operand.IsIntegral := by simpa [Expr.children] using he.below
    rw [Expr.eval, eval]
    refine (ih ho).valueOf.bind fun v w hvw => ?_
    exact (refines_unary line op hvw).bind fun v w hvw => refines_pure (.some hvw)
  | assignment name value line ih =>
    have hv : value.IsIntegral := by simpa [Expr.children] using he.below
    rw [Expr.eval, eval]
    refine (ih hv).valueOf.bind fun v w hvw => ?_
    exact (refines_assign name hvw).bind fun _ _ _ => refines_pure .none
  | conditional condition thenBranch elseBranch line ihc iht ihe =>
    obtain ⟨hc, ht, hbranch⟩ : condition.IsIntegral ∧ thenBranch.IsIntegral ∧
        ∀ branch ∈ elseBranch, branch.IsIntegral := by
      simpa [Expr.children] using he.below
    cases elseBranch with
    | none =>
      rw [Expr.eval, eval]
      refine (ihc hc).truthOf.bind fun b b' hb => ?_
      subst hb
      cases b with
      | true => exact iht ht
      | false => exact refines_pure .none
    | some branch =>
      rw [Expr.eval, eval]
      refine (ihc hc).truthOf.bind fun b b' hb => ?_
      subst hb
      cases b with
      | true => exact iht ht
      | false => exact ihe branch rfl (hbranch branch rfl)
  | whileLoop condition body line ihc ihb =>
    obtain ⟨hc, hb⟩ : condition.IsIntegral ∧ body.IsIntegral := by
      simpa [Expr.children] using he.below
    rw [Expr.eval, eval]
    exact (ihc hc).truthOf.repeatWhile (ihb hb) ⟨limit, line, 0⟩ none none .none
  | forLoop counter first last body line ihf ihl ihb =>
    obtain ⟨hf, hl, hb⟩ : first.IsIntegral ∧ last.IsIntegral ∧ body.IsIntegral := by
      simpa [Expr.children] using he.below
    rw [Expr.eval, eval]
    refine (ihf hf).integerOf.bind fun a n ha => (ihl hl).integerOf.bind fun b m hbm => ?_
    subst ha hbm
    refine (ihb hb).repeatFor counter _ ⟨limit, line, 0⟩ a a.toInt none none (fun _ => rfl) ?_ .none
    have hlower := a.lower
    have hupper := a.upper
    have hlast := b.upper
    omega
  | block statements line ih =>
    rw [Expr.eval, eval]
    apply refines_evalAll ?_ none none .none
    intro e hmem
    exact ih e hmem (he.below e hmem)

theorem envAgrees_exactly {env : BoundedScript.Environment} (h : env.IsIntegral) :
    EnvAgrees env (exactly env) := by
  intro name
  cases hv : env.get? name with
  | none =>
    simp only [exactly, hv, Option.bind_none]
    exact .none
  | some v =>
    simp only [exactly, hv, Option.bind_some]
    cases v with
    | integer n => exact .some (.integer n)
    | boolean b => exact .some (.boolean b)
    | real x => exact absurd hv (h name x)

theorem EnvAgrees.isIntegral {env : BoundedScript.Environment} {exact : Environment}
    (h : EnvAgrees env exact) : env.IsIntegral := by
  intro name x hx
  have hname := h name
  rw [hx] at hname
  generalize exact name = value at hname
  cases hname with
  | some hvw => cases hvw

end Exact

open Exact

/-- Integers neither wrap around nor turn into reals: a run that does not overflow is the run over
all integers, and it does not overflow if the results of that run fit in 64 bits. -/
theorem integral_run_is_exact {e : Expr} {env : Environment} (he : e.IsIntegral)
    (henv : env.IsIntegral) (limit : Nat) :
    let outcome := (e.eval limit).outcome env
    let run := Exact.eval limit e (exactly env)
    (¬ Overflows outcome.1 →
      ResultAgrees (Option.Rel Agrees) outcome.1 run.result ∧ EnvAgrees outcome.2 run.environment ∧
      (∀ x, outcome.1 ≠ .ok (some (.real x))) ∧ outcome.2.IsIntegral) ∧
    ((∀ n ∈ run.computed, InRange n) → ¬ Overflows outcome.1) := by
  intro outcome run
  rcases refines_eval limit e he env (exactly env) (envAgrees_exactly henv) with
    ⟨ho, n, hn, hr⟩ | ⟨hres, henv'⟩
  · constructor
    · intro hno
      exact absurd ho hno
    · intro hall
      exact absurd (hall n hn) hr
  · constructor
    · intro _
      exact ⟨hres, henv', hres.not_real, henv'.isIntegral⟩
    · intro _
      exact hres.not_overflows

/-- In `(x // 2) ^ 3` with `x` at -7 both operations look at the sign. -/
theorem integral_run_is_exact_at_negative_floor :
    let e : Expr := .arithmetic .pow
      (.arithmetic .floorDiv (.var "x" 1) (.literal (.integer ⟨2, by decide, by decide⟩) 1) 1)
      (.literal (.integer ⟨3, by decide, by decide⟩) 1) 1
    let env : Environment := (∅ : Environment).assign "x" (.integer ⟨-7, by decide, by decide⟩)
    e.IsIntegral ∧ env.IsIntegral ∧
      ((e.eval 0).outcome env).1 = .ok (some (.integer ⟨-64, by decide, by decide⟩)) ∧
      ResultAgrees (Option.Rel Agrees) ((e.eval 0).outcome env).1
        (Exact.eval 0 e (exactly env)).result := by
  intro e env
  have he : e.IsIntegral := by simp [e, Expr.IsIntegral, Expr.nodes, Expr.StaysIntegral]
  have henv : env.IsIntegral := by
    intro name x
    by_cases hname : "x" = name <;> simp [env, hname, EmptyCollection.emptyCollection]
  have hvalue : ((e.eval 0).outcome env).1 = .ok (some (.integer ⟨-64, by decide, by decide⟩)) := by
    decide +kernel
  refine ⟨he, henv, hvalue, ((integral_run_is_exact he henv 0).1 ?_).1⟩
  intro ho
  obtain ⟨line, ho⟩ := ho
  rw [hvalue] at ho
  cases ho

end BoundedScript
