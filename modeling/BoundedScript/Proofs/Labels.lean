import BoundedScript.Proofs.Evaluation.Outcome
import BoundedScript.Proofs.Parser.Renumbering
import BoundedScript.Proofs.Parser.Truncation
import BoundedScript.Proofs.Tree

/-!
# Lines are labels

Lines say where errors are and decide nothing. Two lists of tokens that differ only in their lines
are both programs or both none, and two trees that differ only in their lines compute the same.
-/

namespace BoundedScript

/-- The trees differ at most in their lines. -/
def Expr.SameShape (e e' : Expr) : Prop :=
  (e.mapLines fun _ => 0) = e'.mapLines fun _ => 0

theorem Expr.sameShape_block {es es' : List Expr}
    (h : es.map (mapLines fun _ => 0) = es'.map (mapLines fun _ => 0)) (line line' : Nat) :
    (block es line).SameShape (block es' line') := by
  rw [SameShape, mapLines, mapLines, mapLinesAll_eq_map, mapLinesAll_eq_map, h]

/-! ### Parsing -/

namespace Parser

/-- Two parses with the same tree or the same complaint, up to lines. -/
inductive SameParse : Except ParseError Expr → Except ParseError Expr → Prop
  | accepted {tree tree' : Expr} : tree.SameShape tree' → SameParse (.ok tree) (.ok tree')
  | rejected (cause : ParseError.Cause) (line line' : Nat) :
      SameParse (.error ⟨cause, line⟩) (.error ⟨cause, line'⟩)

theorem sameParse_of_cause {e e' : ParseError} (h : e.cause = e'.cause) :
    SameParse (.error e) (.error e') := by
  obtain ⟨cause, line⟩ := e
  obtain ⟨cause', line'⟩ := e'
  cases h
  exact .rejected cause line line'

/-- On line 0, tokens are all that is left. -/
theorem renumber_zero (ts : List Located) :
    renumber (fun _ => 0) ts = (ts.map Located.token).map (Located.mk · 0) := by
  rw [List.map_map]
  rfl

theorem parse_sameParse {ts us : List Located}
    (h : ts.map Located.token = us.map Located.token) : SameParse (parse ts) (parse us) := by
  have hzero : renumber (fun _ => 0) ts = renumber (fun _ => 0) us := by
    rw [renumber_zero, renumber_zero, h]
  unfold parse
  cases hts : program ts with
  | ok es =>
    have hok := program_renumber_ok (fun _ => 0) hts
    rw [hzero] at hok
    cases hus : program us with
    | ok es' =>
      have hok' := program_renumber_ok (fun _ => 0) hus
      exact .accepted (Expr.sameShape_block (Except.ok.inj (hok.symm.trans hok')) 1 1)
    | error failure =>
      obtain ⟨failure', hf, -⟩ := program_renumber_error (fun _ => 0) hus
      cases hok.symm.trans hf
  | error failure =>
    obtain ⟨found, hf, he⟩ := program_renumber_error (fun _ => 0) hts
    rw [hzero] at hf
    cases hus : program us with
    | ok es =>
      have hok := program_renumber_ok (fun _ => 0) hus
      cases hok.symm.trans hf
    | error failure' =>
      obtain ⟨found', hf', he'⟩ := program_renumber_error (fun _ => 0) hus
      obtain rfl : found = found' := Except.error.inj (hf.symm.trans hf')
      apply sameParse_of_cause
      rw [ParseError.locateEnd_cause, ParseError.locateEnd_cause, ← he.cause_eq, he'.cause_eq]

end Parser

/-! ### Evaluation -/

namespace EvalM

variable {α β : Type}

/-- Two outcomes with the same result, or the same fault on lines that may differ, and the same
environment. -/
inductive SameOutcome :
    Except RuntimeError α × Environment → Except RuntimeError α × Environment → Prop
  | result (a : α) (env : Environment) : SameOutcome (.ok a, env) (.ok a, env)
  | fault (fault : Fault) (line line' : Nat) (env : Environment) :
      SameOutcome (.error ⟨fault, line⟩, env) (.error ⟨fault, line'⟩, env)

theorem SameOutcome.symm {r r' : Except RuntimeError α × Environment} (h : SameOutcome r r') :
    SameOutcome r' r := by
  cases h with
  | result a env => exact .result a env
  | fault fault line line' env => exact .fault fault line' line env

theorem SameOutcome.trans {r r' r'' : Except RuntimeError α × Environment}
    (h : SameOutcome r r') (h' : SameOutcome r' r'') : SameOutcome r r'' := by
  cases h with
  | result => exact h'
  | fault fault line line' env =>
    cases h' with
    | fault => exact .fault ..

/-- The computations do the same everywhere, up to the lines of their errors. -/
def Alike (x y : EvalM α) : Prop := ∀ env, SameOutcome (x.outcome env) (y.outcome env)

theorem alike_pure (a : α) : Alike (pure a) (pure a) := by
  intro env
  exact .result a env

theorem alike_throw (fault : Fault) (line line' : Nat) :
    Alike (throw ⟨fault, line⟩ : EvalM α) (throw ⟨fault, line'⟩) := by
  intro env
  exact .fault fault line line' env

theorem alike_assign (name : String) (value : Value) :
    Alike (assign name value) (assign name value) := by
  intro env
  exact .result () _

theorem alike_lookup (name : String) (line line' : Nat) :
    Alike (lookup name line) (lookup name line') := by
  intro env
  rw [outcome_lookup, outcome_lookup]
  cases env.get? name with
  | some value => exact .result value env
  | none => exact .fault _ line line' env

theorem alike_onLine (result : Except Fault α) (line line' : Nat) :
    Alike (onLine line result) (onLine line' result) := by
  cases result with
  | ok a => exact alike_pure a
  | error fault => exact alike_throw fault line line'

theorem Alike.bind {x y : EvalM α} {f g : α → EvalM β} (h : Alike x y)
    (hf : ∀ a, Alike (f a) (g a)) : Alike (x >>= f) (y >>= g) := by
  intro env
  have hxy := h env
  rw [outcome_bind, outcome_bind]
  generalize x.outcome env = r, y.outcome env = r' at hxy ⊢
  cases hxy with
  | result a env => exact hf a env
  | fault fault line line' env => exact .fault fault line line' env

section

variable {line line' : Nat} {x y : EvalM (Option Value)}

theorem Alike.valueOf (h : Alike x y) : Alike (valueOf line x) (valueOf line' y) := by
  apply h.bind
  intro result
  cases result with
  | some value => exact alike_pure value
  | none => exact alike_throw _ line line'

theorem Alike.truthOf (h : Alike x y) : Alike (truthOf line x) (truthOf line' y) :=
  h.valueOf.bind fun v => alike_onLine v.toBoolean line line'

theorem Alike.integerOf (h : Alike x y) : Alike (integerOf line x) (integerOf line' y) :=
  h.valueOf.bind fun v => alike_onLine v.toInteger line line'

variable {condition condition' : EvalM Bool} {body body' : EvalM (Option Value)}

/-- Both loops count alike and stop at the same count. -/
theorem Alike.repeatWhile (hc : Alike condition condition') (hb : Alike body body')
    (guard : LoopGuard) (last : Option Value) :
    Alike (repeatWhile guard condition body last)
      (repeatWhile { guard with line := line' } condition' body' last) := by
  induction guard, last using repeatWhile.induct with
  | case1 guard last ih =>
    rw [EvalM.repeatWhile, EvalM.repeatWhile]
    apply hc.bind
    intro b
    cases b with
    | false => exact alike_pure last
    | true =>
      by_cases hn : guard.advance.Allows
      · have hn' : LoopGuard.Allows (LoopGuard.advance { guard with line := line' }) := hn
        simp only [if_true, dif_pos hn, dif_pos hn']
        apply hb.bind
        intro value
        exact ih hn value
      · have hn' : ¬ LoopGuard.Allows (LoopGuard.advance { guard with line := line' }) := hn
        simp only [if_true, dif_neg hn, dif_neg hn']
        exact alike_throw _ guard.line line'

theorem Alike.repeatFor (hb : Alike body body') (counter : String) (times : Nat) :
    ∀ (guard : LoopGuard) (n : Integer64) (last : Option Value),
      Alike (repeatFor guard counter body times n last)
        (repeatFor { guard with line := line' } counter body' times n last) := by
  induction times with
  | zero =>
    intro guard n last
    exact alike_pure last
  | succ times ih =>
    intro guard n last
    rw [EvalM.repeatFor, EvalM.repeatFor]
    apply (alike_assign counter _).bind
    intro _
    by_cases hn : guard.advance.Allows
    · have hn' : LoopGuard.Allows (LoopGuard.advance { guard with line := line' }) := hn
      rw [if_pos hn, if_pos hn']
      apply hb.bind
      intro value
      exact ih guard.advance n.next value
    · have hn' : ¬ LoopGuard.Allows (LoopGuard.advance { guard with line := line' }) := hn
      rw [if_neg hn, if_neg hn']
      exact alike_throw _ guard.line line'

end

end EvalM

open EvalM

namespace Expr

variable (limit : Nat) (f : Nat → Nat)

theorem alike_evalAll {es : List Expr}
    (h : ∀ e ∈ es, Alike (e.eval limit) ((e.mapLines f).eval limit)) :
    ∀ last, Alike (evalAll limit last es) (evalAll limit last (es.map (mapLines f))) := by
  induction es with
  | nil =>
    intro last
    exact alike_pure last
  | cons e es ih =>
    intro last
    rw [List.map_cons, evalAll, evalAll]
    apply (h e List.mem_cons_self).bind
    intro value
    exact ih (fun e' he' => h e' (List.mem_cons_of_mem _ he')) value

theorem alike_mapLines (e : Expr) : Alike (e.eval limit) ((e.mapLines f).eval limit) := by
  induction e with
  | literal value line =>
    rw [mapLines, eval, eval]
    exact alike_pure _
  | var name line =>
    rw [mapLines, eval, eval]
    exact (alike_lookup name line (f line)).bind fun _ => alike_pure _
  | arithmetic op left right line ihl ihr =>
    rw [mapLines, eval, eval]
    exact ihl.valueOf.bind fun x => ihr.valueOf.bind fun y =>
      (alike_onLine (Value.arithmetic op x y) line (f line)).bind fun _ => alike_pure _
  | comparison op left right line ihl ihr =>
    rw [mapLines, eval, eval]
    exact ihl.valueOf.bind fun x => ihr.valueOf.bind fun y =>
      (alike_onLine (Value.comparison op x y) line (f line)).bind fun _ => alike_pure _
  | logical op left right line ihl ihr =>
    rw [mapLines, eval, eval]
    apply ihl.truthOf.bind
    intro b
    split
    · exact alike_pure _
    · exact ihr.truthOf.bind fun _ => alike_pure _
  | unary op operand line ih =>
    rw [mapLines, eval, eval]
    exact ih.valueOf.bind fun x =>
      (alike_onLine (Value.unary op x) line (f line)).bind fun _ => alike_pure _
  | assignment name value line ih =>
    rw [mapLines, eval, eval]
    exact ih.valueOf.bind fun x => (alike_assign name x).bind fun _ => alike_pure _
  | conditional condition thenBranch elseBranch line ihc iht ihe =>
    cases elseBranch with
    | none =>
      rw [mapLines, eval, eval]
      apply ihc.truthOf.bind
      intro b
      cases b with
      | true => exact iht
      | false => exact alike_pure none
    | some branch =>
      rw [mapLines, eval, eval]
      apply ihc.truthOf.bind
      intro b
      cases b with
      | true => exact iht
      | false => exact ihe branch rfl
  | whileLoop condition body line ihc ihb =>
    rw [mapLines, eval, eval]
    exact ihc.truthOf.repeatWhile ihb ⟨limit, line, 0⟩ none
  | forLoop counter first last body line ihf ihl ihb =>
    rw [mapLines, eval, eval]
    apply ihf.integerOf.bind
    intro a
    apply ihl.integerOf.bind
    intro b
    exact ihb.repeatFor counter _ ⟨limit, line, 0⟩ a none
  | block statements line ih =>
    rw [mapLines, eval, eval, mapLinesAll_eq_map]
    exact alike_evalAll limit f ih none

theorem SameShape.alike {e e' : Expr} (h : e.SameShape e') :
    Alike (e.eval limit) (e'.eval limit) := by
  intro env
  have hzero := e.alike_mapLines limit (fun _ => 0) env
  rw [h] at hzero
  exact hzero.trans (e'.alike_mapLines limit (fun _ => 0) env).symm

end Expr

/-! ### Programs and runs -/

/-- What a parser accepts and what a tree computes do not depend on lines. Only errors carry them
on. -/
theorem lines_are_labels :
    (∀ ts us : List Located, ts.map Located.token = us.map Located.token →
      Parser.SameParse (Parser.parse ts) (Parser.parse us)) ∧
    (∀ (source source' : String) (ts us : List Located),
      Token.scan source = .ok ts → Token.scan source' = .ok us →
      ts.map Located.token = us.map Located.token →
      Parser.SameParse (Program.parse source) (Program.parse source')) ∧
    ∀ e e' : Expr, e.SameShape e' → ∀ (limit : Nat) (env : Environment),
      SameOutcome ((e.eval limit).outcome env) ((e'.eval limit).outcome env) := by
  refine ⟨fun ts us => Parser.parse_sameParse, ?_, ?_⟩
  · intro source source' ts us hts hus h
    rw [Program.parse_of_scan_ok hts, Program.parse_of_scan_ok hus]
    exact Parser.parse_sameParse h
  · intro e e' h limit env
    exact h.alike limit env

/-- The end of input after an `else` is reported on the line of its `if`. Where that is line 0, the
error looks like one without a line and is moved to the last token. -/
theorem unfinished_else_on_other_lines :
    let tokens := [.keyword .ifWord, .boolean true, .openBrace, .closeBrace, .keyword .elseWord]
    let loop (line : Nat) : Expr := .whileLoop (.literal (.boolean true) 1) (.block [] line) line
    Parser.SameParse (Parser.parse (tokens.zipWith Located.mk [0, 0, 0, 4, 4]))
        (Parser.parse (tokens.zipWith Located.mk [2, 2, 3, 3, 3])) ∧
      Parser.SameParse (Program.parse "x = true # so far") (Program.parse "x=true") ∧
      SameOutcome (((loop 0).eval 3).outcome ∅) (((loop 5).eval 3).outcome ∅) := by
  intro tokens loop
  have hcomment : Token.scan "x = true # so far" =
      .ok [⟨.identifier "x", 1⟩, ⟨.assign, 1⟩, ⟨.boolean true, 1⟩] := by decide +kernel
  have hplain : Token.scan "x=true" =
      .ok [⟨.identifier "x", 1⟩, ⟨.assign, 1⟩, ⟨.boolean true, 1⟩] := by decide +kernel
  have hloop : (loop 0).SameShape (loop 5) := rfl
  exact ⟨lines_are_labels.1 _ _ rfl, lines_are_labels.2.1 _ _ _ _ hcomment hplain rfl,
    lines_are_labels.2.2 _ _ hloop 3 ∅⟩

end BoundedScript
