import BoundedScript.Proofs.Parser.Completeness

/-!
# Updates are assignments

An update is read by a rule of its own, which takes what stands to the right of the sign as the
second operand. Its expansion spells the same operation out and goes through the levels of
operators, where parentheses keep the right-hand side together. Both are derivations of one
statement, and the parser builds the tree of the derivation.
-/

namespace BoundedScript

namespace Grammar

variable {us : List Located} {e : Expr}

/-- The right-hand side in parentheses is an operand for any operator. -/
theorem Expression.operation_on_group (op : ArithmeticOp) (name : String) (line : Nat)
    (h : Expression .disjunction us e) :
    Expression .disjunction
      (⟨.identifier name, line⟩ :: ⟨.arithmetic op, line⟩ :: ⟨.openParen, line⟩ :: us ++
        [⟨.closeParen, line⟩])
      (.arithmetic op (.var name line) e line) :=
  .of_comparison (.comparison (.of_operation op .var (.group h)))

theorem updates_iff_mem {sign : UpdateOp} {op : ArithmeticOp} :
    Updates sign op ↔ (sign, op) ∈
      [(UpdateOp.add, ArithmeticOp.add), (.sub, .sub), (.mul, .mul), (.div, .div)] := by
  constructor
  · rintro (_ | _ | _ | _) <;> decide
  · intro h
    simp only [List.mem_cons, List.not_mem_nil, or_false, Prod.mk.injEq] at h
    rcases h with ⟨rfl, rfl⟩ | ⟨rfl, rfl⟩ | ⟨rfl, rfl⟩ | ⟨rfl, rfl⟩ <;> constructor

theorem Derives.body_of_statement (h : Derives us (.statement e)) : Derives us (.body [e]) := by
  have hbody := Derives.filled .nil (.single h) .nil
  simpa using hbody

end Grammar

namespace Parser

open Grammar

theorem parse_of_statement {ts : List Located} {e : Expr} (h : Derives ts (.statement e)) :
    parse ts = .ok (.block [e] 1) :=
  parse_eq_ok_iff_program.mpr ⟨[e], program_complete h.body_of_statement, rfl⟩

/-- An update and its expansion are parsed to the same tree, for each sign with its operation:
`x += e` as `x = x + (e)`, `x -= e` as `x = x - (e)`, `x *= e` as `x = x * (e)` and `x /= e` as
`x = x / (e)`, whatever expression `e` is. -/
theorem update_is_parsed_as_its_expansion {ts : List Located} {e : Expr}
    (h : Reads (expression ts) e []) {sign : UpdateOp} {op : ArithmeticOp}
    (hop : (sign, op) ∈ [(UpdateOp.add, ArithmeticOp.add), (.sub, .sub), (.mul, .mul), (.div, .div)])
    (name : String) (line : Nat) :
    let tree : Expr := .block [.assignment name (.arithmetic op (.var name line) e line) line] 1
    parse ([⟨.identifier name, line⟩, ⟨.update sign, line⟩] ++ ts) = .ok tree ∧
      parse ([⟨.identifier name, line⟩, ⟨.assign, line⟩, ⟨.identifier name, line⟩,
        ⟨.arithmetic op, line⟩, ⟨.openParen, line⟩] ++ ts ++ [⟨.closeParen, line⟩]) = .ok tree := by
  intro tree
  obtain ⟨us, hts, hus⟩ := expression_sound h
  rw [List.append_nil] at hts
  subst hts
  constructor
  · exact parse_of_statement (.update (updates_iff_mem.mpr hop) hus)
  · exact parse_of_statement (.assignment (hus.operation_on_group op name line))

/-- `x += 1 + y or z` and the like for the other signs, with the parts of the right-hand side on
several lines. -/
theorem updates_with_disjunction_are_parsed_as_expansions :
    let ts : List Located := [⟨.integer ⟨1, by decide, by decide⟩, 1⟩, ⟨.arithmetic .add, 2⟩,
      ⟨.identifier "y", 3⟩, ⟨.logical .or, 4⟩, ⟨.identifier "z", 5⟩]
    let e : Expr := .logical .or
      (.arithmetic .add (.literal (.integer ⟨1, by decide, by decide⟩) 1) (.var "y" 3) 2)
      (.var "z" 5) 4
    let tree (op : ArithmeticOp) : Expr :=
      .block [.assignment "x" (.arithmetic op (.var "x" 7) e 7) 7] 1
    let update (sign : UpdateOp) := parse ([⟨.identifier "x", 7⟩, ⟨.update sign, 7⟩] ++ ts)
    let expansion (op : ArithmeticOp) :=
      parse ([⟨.identifier "x", 7⟩, ⟨.assign, 7⟩, ⟨.identifier "x", 7⟩, ⟨.arithmetic op, 7⟩,
        ⟨.openParen, 7⟩] ++ ts ++ [⟨.closeParen, 7⟩])
    Reads (expression ts) e [] ∧
      (update .add = .ok (tree .add) ∧ expansion .add = .ok (tree .add)) ∧
      (update .sub = .ok (tree .sub) ∧ expansion .sub = .ok (tree .sub)) ∧
      (update .mul = .ok (tree .mul) ∧ expansion .mul = .ok (tree .mul)) ∧
      (update .div = .ok (tree .div) ∧ expansion .div = .ok (tree .div)) := by
  intro ts e tree update expansion
  have hsum : Expression .disjunction (ts.take 3)
      (.arithmetic .add (.literal (.integer ⟨1, by decide, by decide⟩) 1) (.var "y" 3) 2) :=
    .of_comparison (.comparison (.of_operation .add .integer .var))
  have he : Expression .disjunction ts e := .or hsum (.of_primary .var .conjunction)
  have hreads : Reads (expression ts) e [] := by
    have hend : endStatement false [] = .ok () := rfl
    have hcomplete := expression_complete he (stops_of_endStatement hend)
    rwa [List.append_nil] at hcomplete
  exact ⟨hreads, update_is_parsed_as_its_expansion hreads (by decide) "x" 7,
    update_is_parsed_as_its_expansion hreads (by decide) "x" 7,
    update_is_parsed_as_its_expansion hreads (by decide) "x" 7,
    update_is_parsed_as_its_expansion hreads (by decide) "x" 7⟩

end Parser

end BoundedScript
