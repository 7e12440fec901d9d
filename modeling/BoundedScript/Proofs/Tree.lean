import BoundedScript.Expr

/-!
# Nodes of trees

A node keeps its statements in a list and its `else` in an option, so the recursor of trees comes
with motives for these as well. The induction principle here speaks of trees only.
-/

namespace BoundedScript.Expr

@[elab_as_elim, induction_eliminator]
theorem induct {P : Expr → Prop}
    (literal : ∀ value line, P (.literal value line))
    (var : ∀ name line, P (.var name line))
    (arithmetic : ∀ op left right line, P left → P right → P (.arithmetic op left right line))
    (comparison : ∀ op left right line, P left → P right → P (.comparison op left right line))
    (logical : ∀ op left right line, P left → P right → P (.logical op left right line))
    (unary : ∀ op operand line, P operand → P (.unary op operand line))
    (assignment : ∀ name value line, P value → P (.assignment name value line))
    (conditional : ∀ condition thenBranch elseBranch line, P condition → P thenBranch →
      (∀ branch ∈ elseBranch, P branch) → P (.conditional condition thenBranch elseBranch line))
    (whileLoop : ∀ condition body line, P condition → P body → P (.whileLoop condition body line))
    (forLoop : ∀ counter first last body line, P first → P last → P body →
      P (.forLoop counter first last body line))
    (block : ∀ statements line, (∀ e ∈ statements, P e) → P (.block statements line))
    (e : Expr) : P e := by
  apply @Expr.rec P (fun es => ∀ e ∈ es, P e) (fun branch => ∀ e ∈ branch, P e) literal var
    arithmetic comparison logical unary assignment conditional whileLoop forLoop block
  case nil =>
    intro e he
    cases he
  case cons =>
    intro first others hfirst hothers e he
    rcases List.mem_cons.mp he with rfl | he
    · exact hfirst
    · exact hothers e he
  case none =>
    intro e he
    cases he
  case some =>
    intro branch hbranch e he
    cases he
    exact hbranch

mutual

/-- A tree and all trees in it. -/
def nodes : Expr → List Expr
  | literal value line => [literal value line]
  | var name line => [var name line]
  | arithmetic op left right line => arithmetic op left right line :: (left.nodes ++ right.nodes)
  | comparison op left right line => comparison op left right line :: (left.nodes ++ right.nodes)
  | logical op left right line => logical op left right line :: (left.nodes ++ right.nodes)
  | unary op operand line => unary op operand line :: operand.nodes
  | assignment name value line => assignment name value line :: value.nodes
  | conditional condition thenBranch elseBranch line =>
    conditional condition thenBranch elseBranch line ::
      (condition.nodes ++ thenBranch.nodes ++
        match elseBranch with
        | some branch => branch.nodes
        | none => [])
  | whileLoop condition body line =>
    whileLoop condition body line :: (condition.nodes ++ body.nodes)
  | forLoop counter first last body line =>
    forLoop counter first last body line :: (first.nodes ++ last.nodes ++ body.nodes)
  | block statements line => block statements line :: nodesAll statements

def nodesAll : List Expr → List Expr
  | [] => []
  | e :: es => e.nodes ++ nodesAll es

end

theorem nodesAll_eq_flatMap (es : List Expr) : nodesAll es = es.flatMap nodes := by
  induction es with
  | nil => rw [nodesAll, List.flatMap_nil]
  | cons e es ih => rw [nodesAll, List.flatMap_cons, ih]

/-- The trees right below a node. -/
def children : Expr → List Expr
  | literal _ _ | var _ _ => []
  | arithmetic _ left right _ | comparison _ left right _ | logical _ left right _ => [left, right]
  | unary _ operand _ => [operand]
  | assignment _ value _ => [value]
  | conditional condition thenBranch elseBranch _ => condition :: thenBranch :: elseBranch.toList
  | whileLoop condition body _ => [condition, body]
  | forLoop _ first last body _ => [first, last, body]
  | block statements _ => statements

theorem nodes_eq (e : Expr) : e.nodes = e :: e.children.flatMap nodes := by
  cases e with
  | conditional condition thenBranch elseBranch line => cases elseBranch <;> simp [nodes, children]
  | block statements line => rw [nodes, children, nodesAll_eq_flatMap]
  | _ => simp [nodes, children]

theorem self_mem_nodes (e : Expr) : e ∈ e.nodes := by
  rw [nodes_eq]
  exact List.mem_cons_self

theorem mem_nodes_of_mem_children {e child node : Expr} (h : child ∈ e.children)
    (hnode : node ∈ child.nodes) : node ∈ e.nodes := by
  rw [nodes_eq]
  exact List.mem_cons_of_mem _ (List.mem_flatMap.mpr ⟨child, h, hnode⟩)

/-- Induction that does not tell the kinds of nodes apart. -/
theorem induct_children {P : Expr → Prop} (h : ∀ e, (∀ child ∈ e.children, P child) → P e)
    (e : Expr) : P e := by
  induction e with
  | literal | var => exact h _ (by simp [children])
  | arithmetic op left right line hl hr | comparison op left right line hl hr
  | logical op left right line hl hr => exact h _ (by simp [children, hl, hr])
  | unary op operand line ho => exact h _ (by simp [children, ho])
  | assignment name value line hv => exact h _ (by simp [children, hv])
  | conditional condition thenBranch elseBranch line hc ht he =>
    exact h _ (by simpa [children, hc, ht] using he)
  | whileLoop condition body line hc hb => exact h _ (by simp [children, hc, hb])
  | forLoop counter first last body line hf hl hb => exact h _ (by simp [children, hf, hl, hb])
  | block statements line hs => exact h _ hs

theorem mem_nodes_trans {e node inner : Expr} (hnode : node ∈ e.nodes)
    (hinner : inner ∈ node.nodes) : inner ∈ e.nodes := by
  induction e using induct_children with
  | h e ih =>
    rw [nodes_eq] at hnode
    rcases List.mem_cons.mp hnode with rfl | hnode
    · exact hinner
    · obtain ⟨child, hchild, hnode⟩ := List.mem_flatMap.mp hnode
      exact mem_nodes_of_mem_children hchild (ih child hchild hnode)

/-- A property of all nodes of a tree holds of the tree and passes on to the trees below it. -/
theorem forall_nodes_iff {P : Expr → Prop} {e : Expr} :
    (∀ node ∈ e.nodes, P node) ↔ P e ∧ ∀ child ∈ e.children, ∀ node ∈ child.nodes, P node := by
  rw [nodes_eq, List.forall_mem_cons]
  simp only [List.mem_flatMap, forall_exists_index, and_imp]
  constructor
  · intro h
    exact ⟨h.1, fun child hchild node hnode => h.2 node child hchild hnode⟩
  · intro h
    exact ⟨h.1, fun node child hchild hnode => h.2 child hchild node hnode⟩

end BoundedScript.Expr
