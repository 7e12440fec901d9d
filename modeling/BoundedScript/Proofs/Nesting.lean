import BoundedScript.Proofs.Grammar

/-!
# The `if` that an `else` belongs to

An `else` belongs to the `if` in front of the block that it follows. The block may hold conditionals
of its own, but its braces keep them apart: counting braces shows that no block ends with a shorter
block.
-/

namespace BoundedScript.Grammar

/-! ### Balanced braces -/

/-- What a token adds to the number of blocks that were closed but not opened. -/
def brace : Token → Int
  | .closeBrace => 1
  | .openBrace => -1
  | _ => 0

/-- How many more blocks are closed than opened. -/
def surplus : List Located → Int
  | [] => 0
  | u :: us => brace u.token + surplus us

@[simp]
theorem surplus_append (us vs : List Located) : surplus (us ++ vs) = surplus us + surplus vs := by
  induction us with
  | nil => simp [surplus]
  | cons u us ih => simp only [List.cons_append, surplus, ih, Int.add_assoc]

/-- Every block that is opened is closed after it, and the other way round. -/
structure Balanced (us : List Located) : Prop where
  surplus_eq_zero : surplus us = 0
  surplus_nonneg : ∀ vs ws, us = vs ++ ws → 0 ≤ surplus ws

section

variable {us vs : List Located}

theorem Balanced.cons {u : Located} (hu : brace u.token = 0) (h : Balanced us) :
    Balanced (u :: us) where
  surplus_eq_zero := by simp [surplus, hu, h.surplus_eq_zero]
  surplus_nonneg vs ws heq := by
    cases vs with
    | nil =>
      subst heq
      simp [surplus, hu, h.surplus_eq_zero]
    | cons v vs =>
      cases heq
      exact h.surplus_nonneg vs ws rfl

theorem balanced_of_forall (h : ∀ u ∈ us, brace u.token = 0) : Balanced us := by
  induction us with
  | nil => exact ⟨rfl, fun vs ws heq => by simp_all [surplus]⟩
  | cons u us ih => exact .cons (h u (by simp)) (ih fun v hv => h v (by simp [hv]))

theorem Balanced.append (h : Balanced us) (h' : Balanced vs) : Balanced (us ++ vs) where
  surplus_eq_zero := by simp [h.surplus_eq_zero, h'.surplus_eq_zero]
  surplus_nonneg xs ys heq := by
    rcases List.append_eq_append_iff.mp heq with ⟨zs, -, hvs⟩ | ⟨zs, hus, rfl⟩
    · exact h'.surplus_nonneg zs ys hvs
    · rw [surplus_append, h'.surplus_eq_zero, Int.add_zero]
      exact h.surplus_nonneg xs zs hus

/-- Every end of a block but the whole closes it. -/
theorem Balanced.surplus_pos {l : Nat} {xs ys : List Located} (h : Balanced us) (hys : ys ≠ [])
    (heq : us ++ [⟨.closeBrace, l⟩] = xs ++ ys) : 0 < surplus ys := by
  rcases List.append_eq_append_iff.mp heq with ⟨zs, -, hzs⟩ | ⟨zs, hus, rfl⟩
  · obtain ⟨y, ys, rfl⟩ := List.exists_cons_of_ne_nil hys
    cases zs with
    | nil =>
      cases hzs
      simp [surplus, brace]
    | cons z zs => simp at hzs
  · have hzs := h.surplus_nonneg xs zs hus
    simp only [surplus_append, surplus, brace]
    omega

theorem Balanced.block {l l' : Nat} (h : Balanced us) :
    Balanced (⟨.openBrace, l⟩ :: us ++ [⟨.closeBrace, l'⟩]) where
  surplus_eq_zero := by simp [surplus, brace, h.surplus_eq_zero]
  surplus_nonneg xs ys heq := by
    cases xs with
    | nil =>
      rw [List.nil_append] at heq
      subst heq
      simp [surplus, brace, h.surplus_eq_zero]
    | cons x xs =>
      by_cases hys : ys = []
      · simp [hys, surplus]
      · exact Int.le_of_lt (h.surplus_pos hys (List.cons.inj heq).2)

/-! ### Phrases -/

/-- The tokens that expressions are made of. -/
def inExpression : Token → Bool
  | .keyword _ | .update _ | .openBrace | .closeBrace | .semicolon | .newline | .comment => false
  | _ => true

theorem Expression.inExpression {c : Category} {e : Expr} (h : Expression c us e) :
    ∀ u ∈ us, inExpression u.token = true := by
  induction h with
  | disjunction _ ih | conjunction _ ih | negation _ ih | comparison _ ih | sum _ ih | product _ ih
  | signed _ ih => exact ih
  | or _ _ ihl ihr | and _ _ ihl ihr | compare _ _ ihl ihr | add _ _ _ ihl ihr
  | multiply _ _ _ ihl ihr =>
    rw [List.forall_mem_append, List.forall_mem_cons]
    exact ⟨ihl, rfl, ihr⟩
  | not _ ih | minus _ ih =>
    rw [List.forall_mem_cons]
    exact ⟨rfl, ih⟩
  | integer | boolean | var =>
    rw [List.forall_mem_singleton]
    rfl
  | assignment _ ih =>
    simp only [List.cons_append, List.forall_mem_cons, List.forall_mem_append]
    exact ⟨rfl, rfl, rfl, ih, by simp [Grammar.inExpression]⟩
  | group _ ih =>
    simp only [List.cons_append, List.forall_mem_cons, List.forall_mem_append]
    exact ⟨rfl, ih, by simp [Grammar.inExpression]⟩

theorem Expression.balanced {c : Category} {e : Expr} (h : Expression c us e) : Balanced us := by
  apply balanced_of_forall
  intro u hu
  have ht := h.inExpression u hu
  revert ht
  cases u.token <;> simp [Grammar.inExpression, brace]

theorem Separators.balanced (h : Separators us) : Balanced us := by
  apply balanced_of_forall
  intro u hu
  rcases h u hu with ht | ht <;> rw [ht] <;> rfl

theorem Breaks.separators (h : Breaks us) : Separators us := fun u hu => .inl (h u hu)

theorem Derives.balanced {p : Phrase} (h : Derives us p) : Balanced us := by
  induction h with
  | conditional _ ih | elseIf _ ih | elseBlock _ ih | single _ ih => exact ih
  | expression h => exact h.balanced
  | assignment h | update _ h => exact .cons rfl (.cons rfl h.balanced)
  | whileLoop hc _ ih | ifThen hc _ ih => exact .append (.cons rfl hc.balanced) ih
  | forLoop hf hl _ ih =>
    exact .append (.append (.cons rfl (.cons rfl (.cons rfl hf.balanced))) (.cons rfl hl.balanced))
      ih
  | ifElse hc _ hbreaks _ ihb ihe =>
    exact .append (.append (.append (.cons rfl hc.balanced) ihb) hbreaks.separators.balanced)
      (.cons rfl ihe)
  | block _ ih => exact ih.block
  | several _ hs _ _ ih ihst => exact (ih.append hs.balanced).append ihst
  | empty hs => exact hs.balanced
  | filled hs _ hs' ih => exact (hs.balanced.append ih).append hs'.balanced

/-- No block ends with a shorter one. -/
theorem Derives.eq_nil_of_block_append {e e' : Expr} (h : Derives (us ++ vs) (.block e))
    (h' : Derives vs (.block e')) : us = [] := by
  generalize heq : us ++ vs = ws at h
  cases us with
  | nil => rfl
  | cons u us =>
    cases h with
    | block hbody =>
      obtain ⟨l, vs', rfl⟩ := h'.starts_block
      have hpos := hbody.balanced.surplus_pos (List.cons_ne_nil _ _) (List.cons.inj heq).2.symm
      rw [h'.balanced.surplus_eq_zero] at hpos
      cases hpos

theorem Derives.ends_block {e : Expr} (h : Derives us (.block e)) :
    ∃ vs l, us = vs ++ [⟨.closeBrace, l⟩] := by
  cases h
  exact ⟨_, _, rfl⟩

end

/-! ### Awaiting a branch -/

/-- The tokens end with an `else` that is to get a branch, and the `if` that it belongs to stands on
the given line. -/
def AwaitsBranch (ts : List Located) (line : Nat) : Prop :=
  ∃ us condition vs thenBranch ws breaks l,
    Expression .disjunction vs condition ∧ Derives ws (.block thenBranch) ∧ Breaks breaks ∧
    ts = us ++ ⟨.keyword .ifWord, line⟩ :: vs ++ ws ++ breaks ++ [⟨.keyword .elseWord, l⟩]

theorem AwaitsBranch.append_left {ts : List Located} {line : Nat} (us : List Located)
    (h : AwaitsBranch ts line) : AwaitsBranch (us ++ ts) line := by
  obtain ⟨us', condition, vs, thenBranch, ws, breaks, l, hv, hw, hb, rfl⟩ := h
  refine ⟨us ++ us', condition, vs, thenBranch, ws, breaks, l, hv, hw, hb, ?_⟩
  simp only [List.append_assoc, List.cons_append]

theorem AwaitsBranch.exists_getLast? {ts : List Located} {line : Nat} (h : AwaitsBranch ts line) :
    ∃ l, ts.getLast? = some ⟨.keyword .elseWord, l⟩ := by
  obtain ⟨us, _, vs, _, ws, breaks, l, -, -, -, rfl⟩ := h
  exact ⟨l, List.getLast?_concat⟩

theorem AwaitsBranch.one_le {ts : List Located} {line : Nat} (h : AwaitsBranch ts line)
    (hlines : ∀ u ∈ ts, 1 ≤ u.line) : 1 ≤ line := by
  obtain ⟨us, _, vs, _, ws, breaks, l, -, -, -, rfl⟩ := h
  exact hlines ⟨.keyword .ifWord, line⟩ (by simp)

section

variable {us us' vs vs' ws ws' breaks breaks' : List Located} {e e' : Expr} {line line' : Nat}

theorem eq_nil_of_append_breaks (hw : Derives ws (.block e)) (hb : Breaks breaks)
    (heq : us ++ ws = vs ++ breaks) : breaks = [] := by
  rcases List.eq_nil_or_concat breaks with hnil | ⟨breaks', u, rfl⟩
  · exact hnil
  · obtain ⟨ws', l, rfl⟩ := hw.ends_block
    have hlast := congrArg List.getLast? heq
    simp only [List.concat_eq_append, ← List.append_assoc, List.getLast?_concat] at hlast
    have hu := hb u (by simp)
    rw [← Option.some.inj hlast] at hu
    cases hu

theorem eq_of_append_breaks (hw : Derives ws (.block e)) (hw' : Derives ws' (.block e'))
    (hb : Breaks breaks) (hb' : Breaks breaks') (heq : us ++ ws ++ breaks = us' ++ ws' ++ breaks') :
    us ++ ws = us' ++ ws' := by
  rcases List.append_eq_append_iff.mp heq with ⟨zs, hzs, rfl⟩ | ⟨zs, hzs, rfl⟩
  · obtain rfl := eq_nil_of_append_breaks hw' (fun u hu => hb u (by simp [hu])) hzs
    rw [hzs, List.append_nil]
  · obtain rfl := eq_nil_of_append_breaks hw (fun u hu => hb' u (by simp [hu])) hzs
    rw [hzs, List.append_nil]

theorem eq_of_append_block (hw : Derives ws (.block e)) (hw' : Derives ws' (.block e'))
    (heq : us ++ ws = us' ++ ws') : us = us' := by
  rcases List.append_eq_append_iff.mp heq with ⟨zs, rfl, hzs⟩ | ⟨zs, rfl, hzs⟩
  · obtain rfl := Derives.eq_nil_of_block_append (hzs ▸ hw) hw'
    simp
  · obtain rfl := Derives.eq_nil_of_block_append (hzs ▸ hw') hw
    simp

theorem line_eq_of_cons_expression (hv : Expression .disjunction vs e)
    (heq : ⟨.keyword .ifWord, line⟩ :: vs = us ++ ⟨.keyword .ifWord, line'⟩ :: vs') :
    line = line' := by
  cases us with
  | nil =>
    cases heq
    rfl
  | cons u us =>
    cases heq
    cases hv.inExpression ⟨.keyword .ifWord, line'⟩ (by simp)

/-- The last `if` before an expression is the one right in front of it. -/
theorem line_eq_of_append_expression (hv : Expression .disjunction vs e)
    (hv' : Expression .disjunction vs' e')
    (heq : us ++ ⟨.keyword .ifWord, line⟩ :: vs = us' ++ ⟨.keyword .ifWord, line'⟩ :: vs') :
    line = line' := by
  rcases List.append_eq_append_iff.mp heq with ⟨zs, -, hzs⟩ | ⟨zs, -, hzs⟩
  · exact line_eq_of_cons_expression hv hzs
  · exact (line_eq_of_cons_expression hv' hzs).symm

theorem AwaitsBranch.line_unique {ts : List Located} (h : AwaitsBranch ts line)
    (h' : AwaitsBranch ts line') : line = line' := by
  obtain ⟨us, _, vs, _, ws, breaks, l, hv, hw, hb, rfl⟩ := h
  obtain ⟨us', _, vs', _, ws', breaks', l', hv', hw', hb', heq⟩ := h'
  have heq := List.append_inj_left' heq rfl
  exact line_eq_of_append_expression hv hv'
    (eq_of_append_block hw hw' (eq_of_append_breaks hw hw' hb hb' heq))

end

end BoundedScript.Grammar
