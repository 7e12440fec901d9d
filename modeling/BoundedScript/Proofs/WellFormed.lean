import BoundedScript.Proofs.Parser.Completeness
import BoundedScript.Proofs.Token.Segmentation
import BoundedScript.Proofs.Tree

/-!
# Well-formed trees

The type of trees has room for more than programs: a block may stand as an operand, a name may be
any text and a literal may be negative. The trees here have their parts where the grammar wants
them, and names and literals that can be spelled. All trees that a source produces are of this kind.
-/

namespace BoundedScript

/-- A letter or an underscore, then letters, digits and underscores, but no word of the language. -/
def IsVariableName (name : String) : Prop :=
  Lexeme.IsName name.toList ∧ name ∉ Token.words.map Token.spelling

instance : DecidablePred IsVariableName := fun _ => inferInstanceAs (Decidable (_ ∧ _))

namespace Expr

/-- Literals, variables, operations and assignments. -/
def isExpression : Expr → Bool
  | literal .. | var .. | arithmetic .. | comparison .. | logical .. | unary .. | assignment .. =>
    true
  | conditional .. | whileLoop .. | forLoop .. | block .. => false

def isConditional : Expr → Bool
  | conditional .. => true
  | _ => false

def isBlock : Expr → Bool
  | block .. => true
  | _ => false

/-- Conditionals, loops and expressions. -/
def isStatement (e : Expr) : Bool := !e.isBlock

/-- A node with a name or a literal that can be spelled, and with parts of the right kinds. -/
def FitsParts : Expr → Prop
  | literal (.integer n) _ => 0 ≤ n.toInt
  | literal (.boolean _) _ => True
  | var name _ => IsVariableName name
  | arithmetic _ left right _ | comparison _ left right _ | logical _ left right _ =>
    left.isExpression = true ∧ right.isExpression = true
  | unary _ operand _ => operand.isExpression = true
  | assignment name value _ => IsVariableName name ∧ value.isExpression = true
  | conditional condition thenBranch elseBranch _ =>
    condition.isExpression = true ∧ thenBranch.isBlock = true ∧
      ∀ branch ∈ elseBranch, branch.isBlock = true ∨ branch.isConditional = true
  | whileLoop condition body _ => condition.isExpression = true ∧ body.isBlock = true
  | forLoop counter first last body _ =>
    IsVariableName counter ∧ first.isExpression = true ∧ last.isExpression = true ∧
      body.isBlock = true
  | block statements _ => ∀ e ∈ statements, e.isStatement = true

instance : DecidablePred FitsParts
  | literal (.integer _) _ => inferInstanceAs (Decidable (_ ≤ _))
  | literal (.boolean _) _ => inferInstanceAs (Decidable True)
  | var _ _ => inferInstanceAs (Decidable (IsVariableName _))
  | arithmetic .. | comparison .. | logical .. | assignment .. | conditional .. | whileLoop ..
  | forLoop .. => inferInstanceAs (Decidable (_ ∧ _))
  | unary .. => inferInstanceAs (Decidable (_ = true))
  | block statements _ => inferInstanceAs (Decidable (∀ e ∈ statements, e.isStatement = true))

/-- All nodes of the tree fit their parts. Below an expression there are then only expressions. -/
def Regular (e : Expr) : Prop := ∀ node ∈ e.nodes, node.FitsParts

/-- The tree of a program. -/
def WellFormed (e : Expr) : Prop := e.isBlock = true ∧ e.Regular

instance : DecidablePred WellFormed := fun e =>
  inferInstanceAs (Decidable (e.isBlock = true ∧ ∀ node ∈ e.nodes, node.FitsParts))

theorem regular_iff {e : Expr} :
    e.Regular ↔ e.FitsParts ∧ ∀ child ∈ e.children, child.Regular :=
  forall_nodes_iff

end Expr

/-! ### Names and literals of a source -/

namespace Lexeme

theorem isVariableName_of_denotes {lexeme : List Char} {name : String}
    (h : Denotes lexeme (some (.identifier name))) : IsVariableName name := by
  cases h with
  | fixed ht => cases ht
  | name hs hfixed =>
    refine ⟨by rwa [String.toList_ofList], ?_⟩
    intro hword
    obtain ⟨t, ht, hspelling⟩ := List.mem_map.mp hword
    exact hfixed ⟨t, isFixed_iff.mpr (.inl ht), by rw [hspelling, String.toList_ofList]⟩

theorem nonneg_of_denotes {lexeme : List Char} {n : Integer64}
    (h : Denotes lexeme (some (.integer n))) : 0 ≤ n.toInt := by
  cases h with
  | fixed ht => cases ht
  | integer _ hn => omega

end Lexeme

/-- Some lexeme is this token. -/
def Token.Spellable (t : Token) : Prop := ∃ lexeme, Lexeme.Denotes lexeme (some t)

/-! ### Trees of a source -/

namespace Grammar

open BoundedScript.Expr

theorem Expression.regular {c : Category} {us : List Located} {e : Expr} (h : Expression c us e)
    (hus : ∀ u ∈ us, u.token.Spellable) : e.isExpression = true ∧ e.Regular := by
  induction h with
  | disjunction _ ih | conjunction _ ih | negation _ ih | comparison _ ih | sum _ ih | product _ ih
  | signed _ ih => exact ih hus
  | or _ _ ihl ihr | and _ _ ihl ihr | compare _ _ ihl ihr | add _ _ _ ihl ihr
  | multiply _ _ _ ihl ihr =>
    simp only [List.forall_mem_append, List.forall_mem_cons] at hus
    obtain ⟨hl, hl'⟩ := ihl hus.1
    obtain ⟨hr, hr'⟩ := ihr hus.2.2
    exact ⟨rfl, regular_iff.mpr ⟨⟨hl, hr⟩, by simp [children, hl', hr']⟩⟩
  | not _ ih | minus _ ih =>
    rw [List.forall_mem_cons] at hus
    obtain ⟨he, he'⟩ := ih hus.2
    exact ⟨rfl, regular_iff.mpr ⟨he, by simp [children, he']⟩⟩
  | integer =>
    obtain ⟨lexeme, hd⟩ := List.forall_mem_singleton.mp hus
    exact ⟨rfl, regular_iff.mpr ⟨Lexeme.nonneg_of_denotes hd, by simp [children]⟩⟩
  | boolean => exact ⟨rfl, regular_iff.mpr ⟨trivial, by simp [children]⟩⟩
  | var =>
    obtain ⟨lexeme, hd⟩ := List.forall_mem_singleton.mp hus
    exact ⟨rfl, regular_iff.mpr ⟨Lexeme.isVariableName_of_denotes hd, by simp [children]⟩⟩
  | assignment _ ih =>
    simp only [List.forall_mem_append, List.forall_mem_cons] at hus
    obtain ⟨lexeme, hd⟩ := hus.1.2.1
    obtain ⟨he, he'⟩ := ih hus.1.2.2.2
    exact ⟨rfl, regular_iff.mpr
      ⟨⟨Lexeme.isVariableName_of_denotes hd, he⟩, by simp [children, he']⟩⟩
  | group _ ih =>
    simp only [List.forall_mem_append, List.forall_mem_cons] at hus
    exact ih hus.1.2

/-- The trees of a phrase are regular and of the kind that the phrase stands for. -/
def Phrase.Regular : Phrase → Prop
  | statement e => e.isStatement = true ∧ e.Regular
  | conditional e => e.isConditional = true ∧ e.Regular
  | branch e => (e.isBlock = true ∨ e.isConditional = true) ∧ e.Regular
  | block e => e.isBlock = true ∧ e.Regular
  | statements es | body es => ∀ e ∈ es, e.isStatement = true ∧ e.Regular

theorem isStatement_of_isExpression {e : Expr} (h : e.isExpression = true) :
    e.isStatement = true := by
  cases e with
  | block => cases h
  | _ => rfl

theorem isStatement_of_isConditional {e : Expr} (h : e.isConditional = true) :
    e.isStatement = true := by
  cases e with
  | block => cases h
  | _ => rfl

theorem Derives.regular {us : List Located} {p : Phrase} (h : Derives us p)
    (hus : ∀ u ∈ us, u.token.Spellable) : p.Regular := by
  induction h with
  | conditional _ ih =>
    obtain ⟨he, he'⟩ := ih hus
    exact ⟨isStatement_of_isConditional he, he'⟩
  | whileLoop hc _ ihb =>
    simp only [List.forall_mem_append, List.forall_mem_cons] at hus
    obtain ⟨hc, hc'⟩ := hc.regular hus.1.2
    obtain ⟨hb, hb'⟩ := ihb hus.2
    exact ⟨rfl, regular_iff.mpr ⟨⟨hc, hb⟩, by simp [children, hc', hb']⟩⟩
  | forLoop hf hl _ ihb =>
    simp only [List.forall_mem_append, List.forall_mem_cons] at hus
    obtain ⟨lexeme, hd⟩ := hus.1.1.2.1
    obtain ⟨hf, hf'⟩ := hf.regular hus.1.1.2.2.2
    obtain ⟨hl, hl'⟩ := hl.regular hus.1.2.2
    obtain ⟨hb, hb'⟩ := ihb hus.2
    exact ⟨rfl, regular_iff.mpr ⟨⟨Lexeme.isVariableName_of_denotes hd, hf, hl, hb⟩,
      by simp [children, hf', hl', hb']⟩⟩
  | assignment he =>
    simp only [List.forall_mem_cons] at hus
    obtain ⟨lexeme, hd⟩ := hus.1
    obtain ⟨he, he'⟩ := he.regular hus.2.2
    exact ⟨rfl, regular_iff.mpr
      ⟨⟨Lexeme.isVariableName_of_denotes hd, he⟩, by simp [children, he']⟩⟩
  | update _ he =>
    simp only [List.forall_mem_cons] at hus
    obtain ⟨lexeme, hd⟩ := hus.1
    have hname := Lexeme.isVariableName_of_denotes hd
    obtain ⟨he, he'⟩ := he.regular hus.2.2
    have hvar (line : Nat) : Expr.Regular (.var _ line) :=
      regular_iff.mpr ⟨hname, by simp [children]⟩
    exact ⟨rfl, regular_iff.mpr ⟨⟨hname, rfl⟩, by
      simp only [children, List.mem_singleton, forall_eq]
      exact regular_iff.mpr ⟨⟨rfl, he⟩, by simp [children, hvar, he']⟩⟩⟩
  | expression he =>
    obtain ⟨he, he'⟩ := he.regular hus
    exact ⟨isStatement_of_isExpression he, he'⟩
  | ifThen hc _ iht =>
    simp only [List.forall_mem_append, List.forall_mem_cons] at hus
    obtain ⟨hc, hc'⟩ := hc.regular hus.1.2
    obtain ⟨ht, ht'⟩ := iht hus.2
    exact ⟨rfl, regular_iff.mpr ⟨⟨hc, ht, by simp⟩, by simp [children, hc', ht']⟩⟩
  | ifElse hc _ _ _ iht ihe =>
    simp only [List.forall_mem_append, List.forall_mem_cons] at hus
    obtain ⟨hc, hc'⟩ := hc.regular hus.1.1.1.2
    obtain ⟨ht, ht'⟩ := iht hus.1.1.2
    obtain ⟨he, he'⟩ := ihe hus.2.2
    exact ⟨rfl, regular_iff.mpr ⟨⟨hc, ht, by simpa using he⟩, by simp [children, hc', ht', he']⟩⟩
  | elseIf _ ih =>
    obtain ⟨he, he'⟩ := ih hus
    exact ⟨.inr he, he'⟩
  | elseBlock _ ih =>
    obtain ⟨he, he'⟩ := ih hus
    exact ⟨.inl he, he'⟩
  | block _ ih =>
    simp only [List.forall_mem_append, List.forall_mem_cons] at hus
    have hes := ih hus.1.2
    exact ⟨rfl, regular_iff.mpr ⟨fun e he => (hes e he).1, fun e he => (hes e he).2⟩⟩
  | single _ ih => exact List.forall_mem_singleton.mpr (ih hus)
  | several _ _ _ _ ihe ihs =>
    simp only [List.forall_mem_append] at hus
    exact List.forall_mem_cons.mpr ⟨ihe hus.1.1, ihs hus.2⟩
  | empty =>
    intro e he
    cases he
  | filled _ _ _ ih =>
    simp only [List.forall_mem_append] at hus
    exact ih hus.1.2

end Grammar

theorem Program.wellFormed_of_parse {source : String} {t : Expr}
    (h : Program.parse source = .ok t) : t.WellFormed := by
  obtain ⟨us, es, hus, hes, rfl⟩ := Program.parse_eq_ok_iff_derives.mp h
  have hes := hes.regular (Token.denotes_of_segmented (Token.segmented_of_scan hus))
  exact ⟨rfl, Expr.regular_iff.mpr ⟨fun e he => (hes e he).1, fun e he => (hes e he).2⟩⟩

end BoundedScript
