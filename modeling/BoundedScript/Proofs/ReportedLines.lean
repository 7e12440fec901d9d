import BoundedScript.Proofs.Evaluation.Blame
import BoundedScript.Proofs.Parser.Renumbering

/-!
# Reported lines

Every line that an error names is a line of the script. The scanner counts line breaks and so stays
in the text. The parser makes up no lines: moving the lines that no token stands on changes nothing
for it, so it cannot have reported one of them. An error of a run names the line of a node.
-/

namespace BoundedScript

/-- The line is one of a text that starts on line `first`. -/
def InText (first : Nat) (cs : List Char) (line : Nat) : Prop :=
  first ≤ line ∧ line ≤ first + cs.count '\n'

/-! ### Scanning -/

namespace Token

open Lexeme

section

variable {P Q : Nat → Prop} {x : Except ParseError (List Located)}

/-- The lines of the tokens, or the line of the error, are of the given kind. -/
def LinesIn (P : Nat → Prop) : Except ParseError (List Located) → Prop
  | .ok us => ∀ u ∈ us, P u.line
  | .error e => P e.line

theorem LinesIn.mono (h : LinesIn P x) (hPQ : ∀ line, P line → Q line) : LinesIn Q x := by
  cases x with
  | ok us =>
    intro u hu
    exact hPQ u.line (h u hu)
  | error e => exact hPQ e.line h

theorem LinesIn.cons {u : Located} (h : LinesIn P x) (hu : P u.line) :
    LinesIn P ((u :: ·) <$> x) := by
  cases x with
  | ok us => exact List.forall_mem_cons.mpr ⟨hu, h⟩
  | error e => exact h

end

variable {first line : Nat} {c : Char} {cs : List Char}

theorem inText_first (first : Nat) (cs : List Char) : InText first cs first :=
  ⟨Nat.le_refl first, Nat.le_add_right first _⟩

theorem inText_cons (hne : (next c cs).1 ≠ .token .newline)
    (h : InText first (next c cs).2 line) : InText first (c :: cs) line := by
  have hcount := count_newline_next c cs
  rw [if_neg hne] at hcount
  unfold InText at h ⊢
  omega

theorem inText_cons_newline (hnewline : (next c cs).1 = .token .newline)
    (h : InText (first + 1) (next c cs).2 line) : InText first (c :: cs) line := by
  have hcount := count_newline_next c cs
  rw [if_pos hnewline] at hcount
  unfold InText at h ⊢
  omega

theorem scanFrom_linesIn (first : Nat) (cs : List Char) :
    LinesIn (InText first cs) (scanFrom first cs) := by
  fun_induction scanFrom first cs with
  | case1 first =>
    intro u hu
    cases hu
  | case2 first c cs _ rest h ih =>
    exact ih.mono fun _ => inText_cons (by rw [h]; simp)
  | case3 first c cs _ rest h ih =>
    have hnext := inText_cons_newline h (inText_first (first + 1) rest)
    exact (ih.mono fun _ => inText_cons_newline h).cons hnext
  | case4 first c cs _ rest t ht h ih =>
    have hne : (next c cs).1 ≠ .token .newline := by
      rw [h]
      simpa using ht
    exact (ih.mono fun _ => inText_cons hne).cons (inText_first first _)
  | case5 first c cs _ h => exact inText_first first _
  | case6 first c cs _ d h => exact inText_first first _

end Token

/-! ### Parsing -/

namespace Expr

variable {f : Nat → Nat}

theorem line_mapLines (f : Nat → Nat) (e : Expr) : (e.mapLines f).line = f e.line := by
  cases e with
  | conditional condition thenBranch elseBranch line =>
    cases elseBranch <;> simp only [mapLines, Expr.line]
  | _ => simp only [mapLines, Expr.line]

theorem children_mapLines (f : Nat → Nat) (e : Expr) :
    (e.mapLines f).children = e.children.map (mapLines f) := by
  cases e with
  | conditional condition thenBranch elseBranch line =>
    cases elseBranch <;> simp [mapLines, children]
  | block statements line => rw [mapLines, mapLinesAll_eq_map, children, children]
  | _ => simp [mapLines, children]

/-- A renumbering that changes nothing in a tree keeps the line of each node. -/
theorem line_fixed_of_mapLines_eq {e : Expr} (h : e.mapLines f = e) :
    ∀ node ∈ e.nodes, f node.line = node.line := by
  induction e using induct_children with
  | h e ih =>
    have hline := e.line_mapLines f
    have hchildren := e.children_mapLines f
    rw [h] at hline hchildren
    rw [forall_nodes_iff]
    constructor
    · exact hline.symm
    · intro child hchild
      apply ih child hchild
      have hsame : e.children.map (mapLines f) = e.children.map id := by
        rw [← hchildren, List.map_id]
      exact List.map_inj_left.mp hsame child hchild

end Expr

namespace Parser

/-- Line 1 and the lines of the tokens. -/
def knownLines (ts : List Located) : List Nat := 1 :: ts.map Located.line

/-- Moves all lines but the known ones. -/
def moveUnknown (ts : List Located) (line : Nat) : Nat :=
  if line ∈ knownLines ts then line else line + 1

theorem moveUnknown_eq_self_iff {ts : List Located} {line : Nat} :
    moveUnknown ts line = line ↔ line ∈ knownLines ts := by
  unfold moveUnknown
  split
  · next h => simp [h]
  · next h => simp [h]

theorem renumber_moveUnknown (ts : List Located) : renumber (moveUnknown ts) ts = ts := by
  have hkept : ∀ u ∈ ts, u.mapLine (moveUnknown ts) = id u := by
    intro u hu
    have hline : u.line ∈ knownLines ts := List.mem_cons_of_mem _ (List.mem_map_of_mem hu)
    rw [Located.mapLine, moveUnknown_eq_self_iff.mpr hline, id]
  rw [renumber, List.map_congr_left hkept, List.map_id]

variable {ts : List Located}

theorem lastLine_mem_knownLines : lastLine ts ∈ knownLines ts := by
  unfold lastLine
  cases hlast : ts.getLast? with
  | none => exact List.mem_cons_self
  | some u =>
    have hu := List.mem_of_getLast? hlast
    exact List.mem_cons_of_mem _ (List.mem_map_of_mem hu)

theorem line_of_parse_error {e : ParseError} (h : parse ts = .error e) :
    e.line ∈ knownLines ts := by
  obtain ⟨failure, hp, rfl⟩ := parse_eq_error_iff_program.mp h
  obtain ⟨failure', hp', he⟩ := program_renumber_error (moveUnknown ts) hp
  rw [renumber_moveUnknown, hp] at hp'
  obtain rfl := Except.error.inj hp'
  unfold ParseError.locateEnd
  split
  · exact lastLine_mem_knownLines
  · next hplaced =>
    have hline := he.line_eq_or_unplaced.resolve_right hplaced
    exact moveUnknown_eq_self_iff.mp hline.symm

theorem line_of_parse_node {tree : Expr} (h : parse ts = .ok tree) :
    ∀ node ∈ tree.nodes, node.line ∈ knownLines ts := by
  obtain ⟨es, hp, rfl⟩ := parse_eq_ok_iff_program.mp h
  have hp' := program_renumber_ok (moveUnknown ts) hp
  rw [renumber_moveUnknown, hp] at hp'
  have htree : (Expr.block es 1).mapLines (moveUnknown ts) = .block es 1 := by
    rw [Expr.mapLines, Expr.mapLinesAll_eq_map, ← Except.ok.inj hp',
      moveUnknown_eq_self_iff.mpr List.mem_cons_self]
  intro node hnode
  exact moveUnknown_eq_self_iff.mp (Expr.line_fixed_of_mapLines_eq htree node hnode)

end Parser

/-! ### Programs -/

namespace Program

variable {source : String}

theorem inText_of_knownLines {ts : List Located} (h : Token.scan source = .ok ts) :
    ∀ line ∈ Parser.knownLines ts, InText 1 source.toList line := by
  have hscan := Token.scanFrom_linesIn 1 source.toList
  rw [← Token.scan, h] at hscan
  intro line hline
  rcases List.mem_cons.mp hline with rfl | hline
  · exact Token.inText_first 1 _
  · obtain ⟨u, hu, rfl⟩ := List.mem_map.mp hline
    exact hscan u hu

theorem inText_of_parse_error {e : ParseError} (h : parse source = .error e) :
    InText 1 source.toList e.line := by
  cases hscan : Token.scan source with
  | error e' =>
    rw [parse_of_scan_error hscan] at h
    cases h
    have hline := Token.scanFrom_linesIn 1 source.toList
    rw [← Token.scan, hscan] at hline
    exact hline
  | ok ts =>
    rw [parse_of_scan_ok hscan] at h
    exact inText_of_knownLines hscan _ (Parser.line_of_parse_error h)

theorem inText_of_parse_node {tree node : Expr} (h : parse source = .ok tree)
    (hnode : node ∈ tree.nodes) : InText 1 source.toList node.line := by
  cases hscan : Token.scan source with
  | error e =>
    rw [parse_of_scan_error hscan] at h
    cases h
  | ok ts =>
    rw [parse_of_scan_ok hscan] at h
    exact inText_of_knownLines hscan _ (Parser.line_of_parse_node h node hnode)

/-- A run that fails with a runtime error has a tree, and one of its nodes is to blame. -/
theorem reports_of_run {limit : Nat} {tree : Expr} {err : Error} (h : parse source = .ok tree)
    (hrun : run limit source = .error err) : ∃ e, err = .runtime e ∧ tree.Reports limit e := by
  rw [run_of_parse_ok h] at hrun
  rcases houtcome : (tree.eval limit).outcome ∅ with ⟨e | value, env⟩
  · rw [houtcome] at hrun
    cases hrun
    exact ⟨e, rfl, tree.blames_eval ∅ e env houtcome⟩
  · rw [houtcome] at hrun
    cases hrun

end Program

/-- The line that an error names. -/
def Error.line : Error → Nat
  | parse e => e.line
  | runtime e => e.line

/-- A failing script reports one of its own lines. At run time it is the line of a node, and of a
loop if that loop has reached the ceiling of the run. -/
theorem reported_lines_exist (limit : Nat) (source : String) (err : Error)
    (h : Program.run limit source = .error err) :
    (1 ≤ err.line ∧ err.line ≤ 1 + source.toList.count '\n') ∧
    ∀ e, err = .runtime e →
      ∃ tree, Program.parse source = .ok tree ∧
        ∃ node ∈ tree.nodes, node.line = e.line ∧
          ∀ n, e.fault = .loopLimit n → node.isLoop = true ∧ n = limit := by
  cases hparse : Program.parse source with
  | error e =>
    rw [Program.run_of_parse_error hparse] at h
    cases h
    constructor
    · exact Program.inText_of_parse_error hparse
    · intro e he
      cases he
  | ok tree =>
    obtain ⟨e, rfl, node, hnode, hline, hraise⟩ := Program.reports_of_run hparse h
    constructor
    · rw [Error.line, ← hline]
      exact Program.inText_of_parse_node hparse hnode
    · intro e' he
      cases he
      refine ⟨tree, rfl, node, hnode, hline, ?_⟩
      intro n hfault
      rw [hfault] at hraise
      exact ⟨hraise.2, hraise.1⟩

theorem endless_loop_is_reported_on_its_line :
    let source := "x = 1\nwhile true \x7b\x7d"
    let e : RuntimeError := ⟨.loopLimit 3, 2⟩
    Program.run 3 source = .error (.runtime e) ∧
      (1 ≤ e.line ∧ e.line ≤ 1 + source.toList.count '\n') ∧
      ∃ tree, Program.parse source = .ok tree ∧
        ∃ node ∈ tree.nodes, node.line = e.line ∧ node.isLoop = true := by
  intro source e
  have hrun : Program.run 3 source = .error (.runtime e) := by decide +kernel
  obtain ⟨hline, htree⟩ := reported_lines_exist 3 source _ hrun
  obtain ⟨tree, hparse, node, hnode, hsame, hloop⟩ := htree e rfl
  exact ⟨hrun, hline, tree, hparse, node, hnode, hsame, (hloop 3 rfl).1⟩

end BoundedScript
