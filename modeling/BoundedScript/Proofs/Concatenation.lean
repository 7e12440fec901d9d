import BoundedScript.Proofs.Evaluation.Outcome
import BoundedScript.Proofs.Lines
import BoundedScript.Proofs.Parser.Completeness

/-!
# One program after another

Two scripts with a line break between them are one script, which does what the first does and then
what the second does. Nothing of the second belongs to the first: a comment ends with its line, and
a conditional at the end finds no `else`, because no script starts with one.
-/

namespace BoundedScript

namespace Token

theorem scan_append_newline {a b : String} {us vs : List Located} (ha : scan a = .ok us)
    (hb : scan b = .ok vs) :
    scan (a ++ "\n" ++ b) = .ok (us ++ ⟨.newline, 1 + a.toList.count '\n' + 1⟩ ::
      vs.map (Located.mapLine (· + (1 + a.toList.count '\n')))) := by
  rw [scan_append_line, ha, hb]

end Token

namespace Expr

variable {limit : Nat} {es fs : List Expr}

theorem evalAll_append :
    ∀ last, evalAll limit last (es ++ fs) =
      evalAll limit last es >>= fun value => evalAll limit value fs := by
  induction es with
  | nil =>
    intro last
    rw [List.nil_append, evalAll, pure_bind]
  | cons e es ih =>
    intro last
    rw [List.cons_append, evalAll, evalAll, bind_assoc]
    simp only [ih]

theorem evalAll_of_ne_nil (h : fs ≠ []) (last last' : Option Value) :
    evalAll limit last fs = evalAll limit last' fs := by
  cases fs with
  | nil => exact absurd rfl h
  | cons e es => rw [evalAll, evalAll]

theorem outcome_block_append (limit line : Nat) (es fs : List Expr) (env : Environment) :
    ((block (es ++ fs) line).eval limit).outcome env =
      match ((block es line).eval limit).outcome env with
      | (.ok value, env') =>
        if fs = [] then (.ok value, env') else ((block fs line).eval limit).outcome env'
      | (.error err, env') => (.error err, env') := by
  rw [eval, eval, eval, evalAll_append, EvalM.outcome_bind]
  rcases (evalAll limit none es).outcome env with ⟨err | value, env'⟩
  · rfl
  · by_cases hfs : fs = []
    · rw [hfs, evalAll]
      rfl
    · simp only [if_neg hfs]
      rw [evalAll_of_ne_nil hfs value none]

end Expr

/-- Running two scripts as one is running the first and then, unless it failed, the second. -/
theorem concatenation_runs_in_sequence {a b : String} {A B : List Expr} {la lb : Nat}
    (ha : Program.parse a = .ok (.block A la)) (hb : Program.parse b = .ok (.block B lb)) :
    let B' := B.map (Expr.mapLines (· + (1 + a.toList.count '\n')))
    Program.parse (a ++ "\n" ++ b) = .ok (.block (A ++ B') 1) ∧
    ∀ limit env, ((Expr.block (A ++ B') 1).eval limit).outcome env =
      match ((Expr.block A 1).eval limit).outcome env with
      | (.ok value, env') =>
        if B = [] then (.ok value, env') else ((Expr.block B' 1).eval limit).outcome env'
      | (.error err, env') => (.error err, env') := by
  intro B'
  obtain ⟨us, es, hus, hes, he⟩ := Program.parse_eq_ok_iff_derives.mp ha
  obtain ⟨vs, fs, hvs, hfs, hf⟩ := Program.parse_eq_ok_iff_derives.mp hb
  cases he
  cases hf
  constructor
  · apply Program.parse_eq_ok_iff_derives.mpr
    have hscan := Token.scan_append_newline hus hvs
    have hseparator := Grammar.Separators.newline (1 + a.toList.count '\n' + 1)
    have hbody := hes.body_append hseparator (by simp)
      (hfs.mapLines (· + (1 + a.toList.count '\n')))
    rw [List.append_assoc] at hbody
    exact ⟨_, _, hscan, hbody, rfl⟩
  · intro limit env
    rw [Expr.outcome_block_append]
    simp only [B', List.map_eq_nil_iff]

/-- The first script here ends with a conditional and with a comment that mentions `else`. With `y`
bound, the second starts from the variables of the first. Without `y` the first fails, and the second
binds nothing. -/
theorem concatenation_after_conditional_and_comment :
    let one : Integer64 := ⟨1, by decide, by decide⟩
    let two : Integer64 := ⟨2, by decide, by decide⟩
    let a := "x = 1\nif x == y \x7b x = 2 \x7d # else"
    let A : List Expr :=
      [.assignment "x" (.literal (.integer one) 1) 1,
        .conditional (.comparison .eq (.var "x" 2) (.var "y" 2) 2)
          (.block [.assignment "x" (.literal (.integer two) 2) 2] 2) none 2]
    let joined : Expr := .block (A ++ [.assignment "z" (.var "x" 3) 3]) 1
    let run := (joined.eval 10).outcome
    let bound := run ((∅ : Environment).assign "y" (.integer one))
    let unbound := run ∅
    Program.parse a = .ok (.block A 1) ∧
      Program.parse "z = x" = .ok (.block [.assignment "z" (.var "x" 1) 1] 1) ∧
      Program.parse (a ++ "\n" ++ "z = x") = .ok joined ∧
      bound.1 = .ok none ∧ bound.2.get? "z" = some (.integer two) ∧
      unbound.1 = .error ⟨.unknownVariable "y", 2⟩ ∧ unbound.2.get? "x" = some (.integer one) ∧
      unbound.2.get? "z" = none := by
  intro one two a A joined run bound unbound
  have hscan : Token.scan a =
      .ok [⟨.identifier "x", 1⟩, ⟨.assign, 1⟩, ⟨.integer one, 1⟩, ⟨.newline, 2⟩,
        ⟨.keyword .ifWord, 2⟩, ⟨.identifier "x", 2⟩, ⟨.comparison .eq, 2⟩, ⟨.identifier "y", 2⟩,
        ⟨.openBrace, 2⟩, ⟨.identifier "x", 2⟩, ⟨.assign, 2⟩, ⟨.integer two, 2⟩,
        ⟨.closeBrace, 2⟩] := by decide +kernel
  have hscan' : Token.scan "z = x" =
      .ok [⟨.identifier "z", 1⟩, ⟨.assign, 1⟩, ⟨.identifier "x", 1⟩] := by decide +kernel
  have ha : Program.parse a = .ok (.block A 1) := by
    rw [Program.parse_of_scan_ok hscan]
    cbv
  have hb : Program.parse "z = x" = .ok (.block [.assignment "z" (.var "x" 1) 1] 1) := by
    rw [Program.parse_of_scan_ok hscan']
    cbv
  obtain ⟨hjoined, hruns⟩ := concatenation_runs_in_sequence ha hb
  have hcount : a.toList.count '\n' = 1 := by decide
  rw [hcount] at hjoined hruns
  simp only [List.map_cons, List.map_nil, Expr.mapLines] at hjoined hruns
  have hrun (env : Environment) := hruns 10 env
  refine ⟨ha, hb, hjoined, ?_⟩
  simp only [bound, unbound, run, joined, hrun]
  decide +kernel

end BoundedScript
