import BoundedScript.Proofs.Grammar
import BoundedScript.Proofs.Token.Scanning

/-!
# Text on other lines

Where a text stands decides only the lines of its tokens, and the lines of its tokens only those of
its tree.
-/

namespace BoundedScript

/-- The same token on another line. -/
def Located.mapLine (f : Nat → Nat) (u : Located) : Located := ⟨u.token, f u.line⟩

namespace Expr

mutual

/-- The same tree with every line renumbered. -/
def mapLines (f : Nat → Nat) : Expr → Expr
  | literal value line => literal value (f line)
  | var name line => var name (f line)
  | arithmetic op left right line => arithmetic op (left.mapLines f) (right.mapLines f) (f line)
  | comparison op left right line => comparison op (left.mapLines f) (right.mapLines f) (f line)
  | logical op left right line => logical op (left.mapLines f) (right.mapLines f) (f line)
  | unary op operand line => unary op (operand.mapLines f) (f line)
  | assignment name value line => assignment name (value.mapLines f) (f line)
  | conditional condition thenBranch elseBranch line =>
    conditional (condition.mapLines f) (thenBranch.mapLines f)
      (match elseBranch with
        | some branch => some (branch.mapLines f)
        | none => none)
      (f line)
  | whileLoop condition body line => whileLoop (condition.mapLines f) (body.mapLines f) (f line)
  | forLoop counter first last body line =>
    forLoop counter (first.mapLines f) (last.mapLines f) (body.mapLines f) (f line)
  | block statements line => block (mapLinesAll f statements) (f line)

def mapLinesAll (f : Nat → Nat) : List Expr → List Expr
  | [] => []
  | e :: es => e.mapLines f :: mapLinesAll f es

end

theorem mapLinesAll_eq_map (f : Nat → Nat) (es : List Expr) :
    mapLinesAll f es = es.map (mapLines f) := by
  induction es with
  | nil => rw [mapLinesAll, List.map_nil]
  | cons e es ih => rw [mapLinesAll, List.map_cons, ih]

end Expr

/-! ### Tokens -/

namespace Token

open Lexeme

/-- A text that starts further down has the same tokens, or the same error, further down. -/
theorem scanFrom_add (line d : Nat) (cs : List Char) :
    scanFrom (line + d) cs =
      match scanFrom line cs with
      | .ok us => .ok (us.map (Located.mapLine (· + d)))
      | .error e => .error ⟨e.cause, e.line + d⟩ := by
  fun_induction scanFrom line cs with
  | case1 line =>
    rw [scanFrom]
    rfl
  | case2 line c cs _ rest h ih =>
    rw [scanFrom_of_skipped h]
    exact ih
  | case3 line c cs _ rest h ih =>
    rw [scanFrom_of_newline h, Nat.add_right_comm, ih]
    cases scanFrom (line + 1) rest <;> rfl
  | case4 line c cs _ rest t ht h ih =>
    rw [scanFrom_of_token h ht, ih]
    cases scanFrom line rest <;> rfl
  | case5 line c cs _ h => rw [scanFrom_of_oversized h]
  | case6 line c cs _ d h => rw [scanFrom_of_unknown h]

/-- Two texts with a line break between them are scanned one after the other. -/
theorem scan_append_line (a b : String) :
    scan (a ++ "\n" ++ b) =
      match scan a, scan b with
      | .error e, _ => .error e
      | .ok _, .error e => .error ⟨e.cause, e.line + (1 + a.toList.count '\n')⟩
      | .ok us, .ok vs => .ok (us ++ ⟨.newline, 1 + a.toList.count '\n' + 1⟩ ::
          vs.map (Located.mapLine (· + (1 + a.toList.count '\n')))) := by
  have htext : (a ++ "\n" ++ b).toList = a.toList ++ '\n' :: b.toList := by simp
  have hmoved := scanFrom_add 1 (1 + a.toList.count '\n') b.toList
  unfold scan
  rw [htext, scanFrom_append_newline, Nat.add_comm (1 + _) 1, hmoved]
  cases scanFrom 1 a.toList with
  | error e => rfl
  | ok us => cases scanFrom 1 b.toList <;> rfl

end Token

/-! ### Derivations -/

namespace Grammar

def Phrase.mapLines (f : Nat → Nat) : Phrase → Phrase
  | statement e => statement (e.mapLines f)
  | conditional e => conditional (e.mapLines f)
  | branch e => branch (e.mapLines f)
  | block e => block (e.mapLines f)
  | statements es => statements (es.map (Expr.mapLines f))
  | body es => body (es.map (Expr.mapLines f))

variable {us : List Located} (f : Nat → Nat)

theorem Expression.mapLines {c : Category} {e : Expr} (h : Expression c us e) :
    Expression c (us.map (Located.mapLine f)) (e.mapLines f) := by
  induction h with
  | disjunction _ ih => exact .disjunction ih
  | conjunction _ ih => exact .conjunction ih
  | negation _ ih => exact .negation ih
  | comparison _ ih => exact .comparison ih
  | sum _ ih => exact .sum ih
  | product _ ih => exact .product ih
  | signed _ ih => exact .signed ih
  | or _ _ ihl ihr =>
    rw [List.map_append, List.map_cons, Expr.mapLines]
    exact .or ihl ihr
  | and _ _ ihl ihr =>
    rw [List.map_append, List.map_cons, Expr.mapLines]
    exact .and ihl ihr
  | compare _ _ ihl ihr =>
    rw [List.map_append, List.map_cons, Expr.mapLines]
    exact .compare ihl ihr
  | add hop _ _ ihl ihr =>
    rw [List.map_append, List.map_cons, Expr.mapLines]
    exact .add hop ihl ihr
  | multiply hop _ _ ihl ihr =>
    rw [List.map_append, List.map_cons, Expr.mapLines]
    exact .multiply hop ihl ihr
  | not _ ih =>
    rw [List.map_cons, Expr.mapLines]
    exact .not ih
  | minus _ ih =>
    rw [List.map_cons, Expr.mapLines]
    exact .minus ih
  | integer =>
    rw [Expr.mapLines]
    exact .integer
  | boolean =>
    rw [Expr.mapLines]
    exact .boolean
  | var =>
    rw [Expr.mapLines]
    exact .var
  | assignment _ ih =>
    simp only [List.map_append, List.map_cons, Expr.mapLines]
    exact .assignment ih
  | group _ ih =>
    simp only [List.map_append, List.map_cons]
    exact .group ih

theorem Separators.mapLine (h : Separators us) : Separators (us.map (Located.mapLine f)) := by
  intro v hv
  obtain ⟨u, hu, rfl⟩ := List.mem_map.mp hv
  exact h u hu

theorem Breaks.mapLine (h : Breaks us) : Breaks (us.map (Located.mapLine f)) := by
  intro v hv
  obtain ⟨u, hu, rfl⟩ := List.mem_map.mp hv
  exact h u hu

theorem Derives.mapLines {p : Phrase} (h : Derives us p) :
    Derives (us.map (Located.mapLine f)) (p.mapLines f) := by
  induction h with
  | conditional _ ih => exact .conditional ih
  | whileLoop hc _ ihb =>
    simp only [List.map_append, List.map_cons, Phrase.mapLines, Expr.mapLines]
    exact .whileLoop (hc.mapLines f) ihb
  | forLoop hf hl _ ihb =>
    simp only [List.map_append, List.map_cons, Phrase.mapLines, Expr.mapLines]
    exact .forLoop (hf.mapLines f) (hl.mapLines f) ihb
  | assignment he =>
    simp only [List.map_cons, Phrase.mapLines, Expr.mapLines]
    exact .assignment (he.mapLines f)
  | update hop he =>
    simp only [List.map_cons, Phrase.mapLines, Expr.mapLines]
    exact .update hop (he.mapLines f)
  | expression he => exact .expression (he.mapLines f)
  | ifThen hc _ iht =>
    simp only [List.map_append, List.map_cons, Phrase.mapLines, Expr.mapLines]
    exact .ifThen (hc.mapLines f) iht
  | ifElse hc _ hb _ iht ihe =>
    simp only [List.map_append, List.map_cons, Phrase.mapLines, Expr.mapLines]
    exact .ifElse (hc.mapLines f) iht (hb.mapLine f) ihe
  | elseIf _ ih => exact .elseIf ih
  | elseBlock _ ih => exact .elseBlock ih
  | block _ ih =>
    simp only [List.map_append, List.map_cons, Phrase.mapLines, Expr.mapLines,
      Expr.mapLinesAll_eq_map]
    exact .block ih
  | single _ ih => exact .single ih
  | several _ hs hne _ ihe ihs =>
    simp only [List.map_append]
    exact .several ihe (hs.mapLine f) (by simpa using hne) ihs
  | empty hs => exact .empty (hs.mapLine f)
  | filled hs _ hs' ih =>
    simp only [List.map_append]
    exact .filled (hs.mapLine f) ih (hs'.mapLine f)

end Grammar

end BoundedScript
