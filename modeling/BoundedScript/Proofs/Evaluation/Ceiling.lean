import BoundedScript.Proofs.Evaluation.Outcome
import BoundedScript.Proofs.Tree

/-!
# Raising the ceiling of loops

A run that stays below its ceiling does not depend on it. Each loop counts for itself, so the
argument goes through every kind of node at once: a computation extends another if it repeats every
run of it that does not end at the ceiling, and all of evaluation is built from steps that keep this
relation.
-/

namespace BoundedScript

/-- A result that reports a loop at its ceiling. -/
def HitsCeiling {α : Type} (result : Except RuntimeError α) : Prop :=
  ∃ limit line, result = .error ⟨.loopLimit limit, line⟩

namespace EvalM

variable {α β : Type}

/-- `y` repeats every run of `x` that does not hit the ceiling. -/
def Extends (x y : EvalM α) : Prop :=
  ∀ env, ¬ HitsCeiling (x.outcome env).1 → y.outcome env = x.outcome env

theorem Extends.refl (x : EvalM α) : Extends x x := by
  intro env _
  rfl

theorem Extends.bind {x y : EvalM α} {f g : α → EvalM β} (h : Extends x y)
    (hf : ∀ a, Extends (f a) (g a)) : Extends (x >>= f) (y >>= g) := by
  intro env hr
  rcases hx : x.outcome env with ⟨err | a, env'⟩
  · rw [outcome_bind_of_error hx] at hr ⊢
    have herr : ¬ HitsCeiling (x.outcome env).1 := by
      rw [hx]
      rintro ⟨limit, line, heq⟩
      cases heq
      exact hr ⟨limit, line, rfl⟩
    rw [outcome_bind_of_error ((h env herr).trans hx)]
  · rw [outcome_bind_of_ok hx] at hr ⊢
    have hok : ¬ HitsCeiling (x.outcome env).1 := by
      rw [hx]
      rintro ⟨limit, line, heq⟩
      cases heq
    rw [outcome_bind_of_ok ((h env hok).trans hx)]
    exact hf a env' hr

theorem extends_throw_loopLimit (limit line : Nat) (y : EvalM α) :
    Extends (throw ⟨.loopLimit limit, line⟩) y := by
  intro env hr
  exact absurd ⟨limit, line, rfl⟩ hr

section

variable {line : Nat} {x y : EvalM (Option Value)}

theorem Extends.valueOf (h : Extends x y) : Extends (valueOf line x) (valueOf line y) :=
  h.bind fun _ => .refl _

theorem Extends.truthOf (h : Extends x y) : Extends (truthOf line x) (truthOf line y) :=
  h.valueOf.bind fun _ => .refl _

theorem Extends.integerOf (h : Extends x y) : Extends (integerOf line x) (integerOf line y) :=
  h.valueOf.bind fun _ => .refl _

variable {m : Nat} {condition condition' : EvalM Bool} {body body' : EvalM (Option Value)}

/-- Both loops count alike, and the higher ceiling allows what the lower one allows. -/
theorem Extends.repeatWhile (hc : Extends condition condition') (hb : Extends body body')
    (guard : LoopGuard) (last : Option Value) (h : guard.limit ≤ m) :
    Extends (repeatWhile guard condition body last)
      (repeatWhile { guard with limit := m } condition' body' last) := by
  induction guard, last using repeatWhile.induct with
  | case1 guard last ih =>
    rw [EvalM.repeatWhile, EvalM.repeatWhile]
    refine hc.bind fun b => ?_
    cases b with
    | false => exact .refl _
    | true =>
      by_cases hn : guard.advance.Allows
      · have hm : LoopGuard.Allows (LoopGuard.advance { guard with limit := m }) :=
          Nat.le_trans hn h
        simp only [if_true, dif_pos hn, dif_pos hm]
        exact hb.bind fun value => ih hn value h
      · simp only [if_true, dif_neg hn]
        exact extends_throw_loopLimit _ _ _

theorem Extends.repeatFor (hb : Extends body body') (counter : String) (times : Nat) :
    ∀ (guard : LoopGuard) (a : Integer64) (last : Option Value), guard.limit ≤ m →
      Extends (repeatFor guard counter body times a last)
        (repeatFor { guard with limit := m } counter body' times a last) := by
  induction times with
  | zero =>
    intro guard a last _
    exact .refl _
  | succ times ih =>
    intro guard a last h
    rw [EvalM.repeatFor, EvalM.repeatFor]
    refine Extends.bind (.refl _) fun _ => ?_
    by_cases hn : guard.advance.Allows
    · have hm : LoopGuard.Allows (LoopGuard.advance { guard with limit := m }) := Nat.le_trans hn h
      rw [if_pos hn, if_pos hm]
      exact hb.bind fun value => ih guard.advance a.next value h
    · rw [if_neg hn]
      exact extends_throw_loopLimit _ _ _

end

end EvalM

open EvalM

namespace Expr

variable {n m : Nat}

theorem evalAll_extends {es : List Expr} (h : ∀ e ∈ es, Extends (e.eval n) (e.eval m)) :
    ∀ last, Extends (evalAll n last es) (evalAll m last es) := by
  induction es with
  | nil =>
    intro last
    exact .refl _
  | cons e es ih =>
    intro last
    rw [evalAll, evalAll]
    exact (h e (by simp)).bind fun value => ih (fun e' he' => h e' (by simp [he'])) value

theorem eval_extends (h : n ≤ m) (e : Expr) : Extends (e.eval n) (e.eval m) := by
  induction e with
  | literal | var =>
    rw [eval, eval]
    exact .refl _
  | arithmetic op left right line ihl ihr | comparison op left right line ihl ihr =>
    rw [eval, eval]
    exact ihl.valueOf.bind fun _ => ihr.valueOf.bind fun _ => .refl _
  | logical op left right line ihl ihr =>
    rw [eval, eval]
    refine ihl.truthOf.bind fun b => ?_
    by_cases hb : b = op.decisive
    · rw [if_pos hb, if_pos hb]
      exact .refl _
    · rw [if_neg hb, if_neg hb]
      exact ihr.truthOf.bind fun _ => .refl _
  | unary op operand line ih =>
    rw [eval, eval]
    exact ih.valueOf.bind fun _ => .refl _
  | assignment name value line ih =>
    rw [eval, eval]
    exact ih.valueOf.bind fun _ => .refl _
  | conditional condition thenBranch elseBranch line ihc iht ihe =>
    cases elseBranch with
    | none =>
      rw [eval, eval]
      refine ihc.truthOf.bind fun b => ?_
      cases b with
      | true => exact iht
      | false => exact .refl _
    | some branch =>
      rw [eval, eval]
      refine ihc.truthOf.bind fun b => ?_
      cases b with
      | true => exact iht
      | false => exact ihe branch rfl
  | whileLoop condition body line ihc ihb =>
    rw [eval, eval]
    exact Extends.repeatWhile ihc.truthOf ihb ⟨n, line, 0⟩ none h
  | forLoop counter first last body line ihf ihl ihb =>
    rw [eval, eval]
    exact ihf.integerOf.bind fun a => ihl.integerOf.bind fun b =>
      ihb.repeatFor counter _ ⟨n, line, 0⟩ a none h
  | block statements line ih =>
    rw [eval, eval]
    exact evalAll_extends ih none

end Expr

theorem Program.run_eq_of_le {n m : Nat} (h : n ≤ m) (source : String)
    (hr : ∀ limit line, Program.run n source ≠ .error (.runtime ⟨.loopLimit limit, line⟩)) :
    Program.run m source = Program.run n source := by
  cases hp : Program.parse source with
  | error e => rw [Program.run_of_parse_error hp, Program.run_of_parse_error hp]
  | ok tree =>
    rw [Program.run_of_parse_ok hp] at hr ⊢
    rw [Program.run_of_parse_ok hp, tree.eval_extends h ∅]
    rintro ⟨limit, line, heq⟩
    exact hr limit line (by rw [heq]; rfl)

/-- A run that does not end at the ceiling of a loop is the same run under every higher ceiling: the
same outcome and the same variables. -/
theorem raising_ceiling_keeps_run {n m : Nat} (h : n ≤ m) :
    (∀ (e : Expr) (env : Environment),
      (∀ limit line, ((e.eval n).outcome env).1 ≠ .error ⟨.loopLimit limit, line⟩) →
      (e.eval m).outcome env = (e.eval n).outcome env) ∧
    (∀ source : String,
      (∀ limit line, Program.run n source ≠ .error (.runtime ⟨.loopLimit limit, line⟩)) →
      Program.run m source = Program.run n source) := by
  constructor
  · intro e env hr
    apply e.eval_extends h env
    rintro ⟨limit, line, heq⟩
    exact hr limit line heq
  · intro source hr
    exact Program.run_eq_of_le h source hr

theorem raising_ceiling_keeps_counting_loop :
    (Program.run 2 "i = 0\nwhile i < 2 \x7b i += 1 \x7d\ni").isOk = true ∧
      Program.run 10000 "i = 0\nwhile i < 2 \x7b i += 1 \x7d\ni" =
        Program.run 2 "i = 0\nwhile i < 2 \x7b i += 1 \x7d\ni" := by
  have hok : (Program.run 2 "i = 0\nwhile i < 2 \x7b i += 1 \x7d\ni").isOk = true := by
    decide +kernel
  refine ⟨hok, (raising_ceiling_keeps_run (by decide)).2 _ ?_⟩
  intro limit line heq
  rw [heq] at hok
  cases hok

end BoundedScript
