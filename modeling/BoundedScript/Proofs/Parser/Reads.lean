import BoundedScript.Parser.Statement

/-!
# What the parsers read

Each parser gets one lemma that says exactly when it reads a value and leaves a rest, in terms of
what the parsers that it calls read.
-/

namespace BoundedScript.Parser

/-- The result is the value `a`, read up to `rest`. -/
def Reads {α : Type} {ts : List Located} (x : Result α ts) (a : α) (rest : List Located) : Prop :=
  ∃ h, x = .ok ⟨a, rest, h⟩

section

variable {α β : Type} {ts us rest : List Located} {a : α} {b : β}

theorem Reads.shorter {x : Result α ts} (h : Reads x a rest) : rest.length < ts.length := h.1

@[simp]
theorem reads_ok {p : Parsed α ts} : Reads (.ok p) a rest ↔ p.value = a ∧ p.rest = rest := by
  obtain ⟨v, r, h⟩ := p
  constructor
  · rintro ⟨h', he⟩
    cases he
    exact ⟨rfl, rfl⟩
  · rintro ⟨rfl, rfl⟩
    exact ⟨h, rfl⟩

@[simp]
theorem reads_pure {p : Parsed α ts} :
    Reads (pure p : Result α ts) a rest ↔ p.value = a ∧ p.rest = rest :=
  reads_ok

@[simp]
theorem not_reads_error {failure : Failure} : ¬ Reads (.error failure : Result α ts) a rest := by
  rintro ⟨h, he⟩
  cases he

theorem bind_eq_ok_iff {ε : Type} {x : Except ε α} {f : α → Except ε β} :
    x >>= f = .ok b ↔ ∃ a, x = .ok a ∧ f a = .ok b := by
  cases x with
  | error e =>
    constructor
    · intro h
      cases h
    · rintro ⟨a, h, -⟩
      cases h
  | ok a =>
    constructor
    · intro h
      exact ⟨a, rfl, h⟩
    · rintro ⟨a', h, hf⟩
      cases h
      exact hf

theorem bind_eq_error_iff {ε : Type} {x : Except ε α} {f : α → Except ε β} {e : ε} :
    x >>= f = .error e ↔ x = .error e ∨ ∃ a, x = .ok a ∧ f a = .error e := by
  cases x with
  | error e' =>
    constructor
    · intro h
      cases h
      exact .inl rfl
    · rintro (h | ⟨a, h, -⟩)
      · cases h
        rfl
      · cases h
  | ok a =>
    constructor
    · intro h
      exact .inr ⟨a, rfl, h⟩
    · rintro (h | ⟨a', h, hf⟩)
      · cases h
      · cases h
        exact hf

theorem reads_bind {x : Result α ts} {f : Parsed α ts → Result β us} :
    Reads (x >>= f) b rest ↔ ∃ a r h, Reads x a r ∧ Reads (f ⟨a, r, h⟩) b rest := by
  constructor
  · intro h
    cases x with
    | error failure => exact absurd h not_reads_error
    | ok p => exact ⟨p.value, p.rest, p.shorter, ⟨p.shorter, rfl⟩, h⟩
  · rintro ⟨a, r, _, ⟨h, rfl⟩, hf⟩
    exact hf

/-- Wrapping up what was read takes no more tokens. -/
theorem reads_bind_pure {x : Result α ts} {f : Parsed α ts → Result β us} {g : α → β}
    (hf : ∀ a r h, ∃ h', f ⟨a, r, h⟩ = pure ⟨g a, r, h'⟩) :
    Reads (x >>= f) b rest ↔ ∃ a, Reads x a rest ∧ g a = b := by
  rw [reads_bind]
  constructor
  · rintro ⟨a, r, h, hx, hb⟩
    obtain ⟨h', he⟩ := hf a r h
    rw [he] at hb
    obtain ⟨rfl, rfl⟩ := reads_pure.mp hb
    exact ⟨a, hx, rfl⟩
  · rintro ⟨a, hx, rfl⟩
    obtain ⟨h', he⟩ := hf a rest hx.shorter
    exact ⟨a, rest, hx.shorter, hx, he ▸ reads_pure.mpr ⟨rfl, rfl⟩⟩

/-- A check that takes nothing may stand between two parsers. -/
theorem reads_check {x : Except Failure Unit} {f : Unit → Result β us} :
    Reads (x >>= f) b rest ↔ x = .ok () ∧ Reads (f ()) b rest := by
  cases x with
  | error failure =>
    constructor
    · intro h
      exact absurd h not_reads_error
    · rintro ⟨h, -⟩
      cases h
  | ok u => exact ⟨fun h => ⟨rfl, h⟩, fun h => h.2⟩

end

section

variable {ts rest : List Located}

theorem reads_expect {what : Expectation} {wanted : Token} {line : Nat} :
    Reads (expect what wanted ts) line rest ↔ ts = ⟨wanted, line⟩ :: rest := by
  unfold expect
  split
  · simp
  · split <;> simp_all

theorem reads_loopVariable {name : String} :
    Reads (loopVariable ts) name rest ↔ ∃ line, ts = ⟨.identifier name, line⟩ :: rest := by
  unfold loopVariable
  split <;> simp_all

theorem reads_closeParen {line : Nat} {u : Unit} :
    Reads (closeParen line ts) u rest ↔ ∃ l, ts = ⟨.closeParen, l⟩ :: rest := by
  unfold closeParen
  split <;> simp_all

/-! ### Expressions -/

variable {e : Expr}

theorem reads_chain {level : Level} :
    Reads (chain level ts) e rest ↔
      ∃ left r h, Reads (operand level ts) left r ∧ Reads (extend level ts left r h) e rest := by
  rw [chain, reads_bind]

/-- The rest starts with no operator of the level. -/
def Level.Stops (level : Level) (rest : List Located) : Prop :=
  ∀ u ∈ rest.head?, level.join? u.token = none

theorem reads_extend {level : Level} {left : Expr} {r : List Located} {h : r.length < ts.length} :
    Reads (extend level ts left r h) e rest ↔
      (level.Stops r ∧ left = e ∧ r = rest) ∨
      ∃ t line after join right r' h', r = ⟨t, line⟩ :: after ∧ level.join? t = some join ∧
        Reads (operand level after) right r' ∧
        Reads (extend level ts (join left right line) r' h') e rest := by
  cases r with
  | nil => simp [extend, Level.Stops]
  | cons u after =>
    obtain ⟨t, line⟩ := u
    rw [extend]
    cases hj : level.join? t with
    | none => simp [Level.Stops, hj]
    | some join =>
      rw [reads_bind]
      constructor
      · rintro ⟨right, r', h', ho, he⟩
        exact .inr ⟨t, line, after, join, right, r', _, rfl, hj, ho, he⟩
      · rintro (⟨hs, -⟩ | ⟨t', line', after', join', right, r', h', hr, hj', ho, he⟩)
        · simp [Level.Stops, hj] at hs
        · cases hr
          cases hj.symm.trans hj'
          exact ⟨right, r', ho.shorter, ho, he⟩

theorem reads_not {line : Nat} :
    Reads (negation (⟨.negation, line⟩ :: ts)) e rest ↔
      ∃ e', Reads (negation ts) e' rest ∧ .unary .not e' line = e := by
  rw [negation]
  exact reads_bind_pure fun _ _ _ => ⟨_, rfl⟩

theorem reads_minus {line : Nat} :
    Reads (signed (⟨.arithmetic .sub, line⟩ :: ts)) e rest ↔
      ∃ e', Reads (signed ts) e' rest ∧ .unary .negate e' line = e := by
  rw [signed]
  exact reads_bind_pure fun _ _ _ => ⟨_, rfl⟩

theorem reads_parenthesis {line : Nat} :
    Reads (primary (⟨.openParen, line⟩ :: ts)) e rest ↔ Reads (grouping line ts) e rest := by
  rw [primary]
  refine (reads_bind_pure (g := id) ?_).trans ?_
  · exact fun _ _ _ => ⟨_, rfl⟩
  · simp

theorem reads_grouping_assignment {name : String} {line l₁ l₂ : Nat} :
    Reads (grouping line (⟨.identifier name, l₁⟩ :: ⟨.assign, l₂⟩ :: ts)) e rest ↔
      ∃ value l₃, Reads (chain .disjunction ts) value (⟨.closeParen, l₃⟩ :: rest) ∧
        .assignment name value line = e := by
  rw [grouping, reads_bind]
  simp only [reads_bind, reads_closeParen, reads_pure]
  constructor
  · rintro ⟨value, r, h, hv, -, r', h', ⟨l₃, rfl⟩, rfl, rfl⟩
    exact ⟨value, l₃, hv, rfl⟩
  · rintro ⟨value, l₃, hv, rfl⟩
    exact ⟨value, _, hv.shorter, hv, (), rest, Nat.lt_succ_self _, ⟨l₃, rfl⟩, rfl, rfl⟩

theorem reads_grouping {line : Nat}
    (h : ∀ name l₁ l₂ after, ts ≠ ⟨.identifier name, l₁⟩ :: ⟨.assign, l₂⟩ :: after) :
    Reads (grouping line ts) e rest ↔
      ∃ l, Reads (chain .disjunction ts) e (⟨.closeParen, l⟩ :: rest) := by
  rw [grouping.eq_2 line ts h, reads_bind]
  simp only [reads_bind, reads_closeParen, reads_pure]
  constructor
  · rintro ⟨e', r, h, he, -, r', h', ⟨l, rfl⟩, rfl, rfl⟩
    exact ⟨l, he⟩
  · rintro ⟨l, he⟩
    exact ⟨e, _, he.shorter, he, (), rest, Nat.lt_succ_self _, ⟨l, rfl⟩, rfl, rfl⟩

/-! ### Statements -/

theorem reads_assignment {name : String} {line l₁ : Nat} :
    Reads (statement (⟨.identifier name, line⟩ :: ⟨.assign, l₁⟩ :: ts)) e rest ↔
      ∃ value, Reads (expression ts) value rest ∧ .assignment name value line = e := by
  rw [statement]
  exact reads_bind_pure fun _ _ _ => ⟨_, rfl⟩

theorem reads_update {name : String} {op : UpdateOp} {line l₁ : Nat} :
    Reads (statement (⟨.identifier name, line⟩ :: ⟨.update op, l₁⟩ :: ts)) e rest ↔
      ∃ value, Reads (expression ts) value rest ∧
        .assignment name (.arithmetic op.operation (.var name line) value line) line = e := by
  rw [statement]
  exact reads_bind_pure fun _ _ _ => ⟨_, rfl⟩

theorem reads_whileLoop :
    Reads (whileLoop ts) e rest ↔
      ∃ line r₁ condition r₂ body, ts = ⟨.keyword .whileWord, line⟩ :: r₁ ∧
        Reads (expression r₁) condition r₂ ∧ Reads (block r₂) body rest ∧
        e = .whileLoop condition body line := by
  rw [whileLoop]
  simp only [reads_bind, reads_expect, reads_pure]
  constructor
  · rintro ⟨line, r₁, h₁, rfl, condition, r₂, h₂, hc, body, r₃, h₃, hb, rfl, rfl⟩
    exact ⟨line, r₁, condition, r₂, body, rfl, hc, hb, rfl⟩
  · rintro ⟨line, r₁, condition, r₂, body, rfl, hc, hb, rfl⟩
    exact ⟨line, r₁, Nat.lt_succ_self _, rfl, condition, r₂, hc.shorter, hc, body, rest,
      hb.shorter, hb, rfl, rfl⟩

theorem reads_forLoop :
    Reads (forLoop ts) e rest ↔
      ∃ line counter l₁ l₂ r₁ first l₃ r₂ last r₃ body,
        ts = ⟨.keyword .forWord, line⟩ :: ⟨.identifier counter, l₁⟩ ::
          ⟨.keyword .inWord, l₂⟩ :: r₁ ∧
        Reads (expression r₁) first (⟨.keyword .toWord, l₃⟩ :: r₂) ∧
        Reads (expression r₂) last r₃ ∧ Reads (block r₃) body rest ∧
        e = .forLoop counter first last body line := by
  rw [forLoop]
  simp only [reads_bind, reads_expect, reads_loopVariable, reads_pure]
  constructor
  · rintro ⟨line, _, _, rfl, counter, _, _, ⟨l₁, rfl⟩, l₂, r₁, _, rfl, first, _, _, hf, l₃, r₂, _,
      rfl, last, r₃, _, hl, body, _, _, hb, rfl, rfl⟩
    exact ⟨line, counter, l₁, l₂, r₁, first, l₃, r₂, last, r₃, body, rfl, hf, hl, hb, rfl⟩
  · rintro ⟨line, counter, l₁, l₂, r₁, first, l₃, r₂, last, r₃, body, rfl, hf, hl, hb, rfl⟩
    exact ⟨line, _, Nat.lt_succ_self _, rfl, counter, _, Nat.lt_succ_self _, ⟨l₁, rfl⟩,
      l₂, r₁, Nat.lt_succ_self _, rfl, first, _, hf.shorter, hf, l₃, r₂, Nat.lt_succ_self _, rfl,
      last, r₃, hl.shorter, hl, body, rest, hb.shorter, hb, rfl, rfl⟩

theorem reads_block :
    Reads (block ts) e rest ↔
      ∃ line r₁ es, ts = ⟨.openBrace, line⟩ :: r₁ ∧ Reads (blockBody line r₁) es rest ∧
        e = .block es line := by
  rw [block]
  simp only [reads_bind, reads_expect, reads_pure]
  constructor
  · rintro ⟨line, r₁, h₁, rfl, es, r₂, h₂, hb, rfl, rfl⟩
    exact ⟨line, r₁, es, rfl, hb, rfl⟩
  · rintro ⟨line, r₁, es, rfl, hb, rfl⟩
    exact ⟨line, r₁, Nat.lt_succ_self _, rfl, es, rest, hb.shorter, hb, rfl, rfl⟩

theorem Reads.starts_conditional (h : Reads (conditional ts) e rest) :
    ∃ line after, ts = ⟨.keyword .ifWord, line⟩ :: after := by
  rw [conditional, reads_bind] at h
  obtain ⟨line, after, _, hw, -⟩ := h
  exact ⟨line, after, reads_expect.mp hw⟩

/-- What may stand after an `else` is told from its first token, so it may as well be read either
way. -/
theorem reads_conditional :
    Reads (conditional ts) e rest ↔
      ∃ line r₁ condition r₂ thenBranch r₃, ts = ⟨.keyword .ifWord, line⟩ :: r₁ ∧
        Reads (expression r₁) condition r₂ ∧ Reads (block r₂) thenBranch r₃ ∧
        ((afterElse? r₃ = none ∧ rest = r₃ ∧ e = .conditional condition thenBranch none line) ∨
          ∃ r₄ elseBranch, afterElse? r₃ = some r₄ ∧
            (Reads (conditional r₄) elseBranch rest ∨ Reads (block r₄) elseBranch rest) ∧
            e = .conditional condition thenBranch (some elseBranch) line) := by
  rw [conditional]
  simp only [reads_bind, reads_expect]
  constructor
  · rintro ⟨line, r₁, h₁, rfl, condition, r₂, h₂, hc, thenBranch, r₃, h₃, hb, he⟩
    refine ⟨line, r₁, condition, r₂, thenBranch, r₃, rfl, hc, hb, ?_⟩
    split at he
    · next h₄ =>
      obtain ⟨rfl, rfl⟩ := reads_pure.mp he
      exact .inl ⟨h₄, rfl, rfl⟩
    · next r₄ h₄ =>
      split at he
      · exact absurd he not_reads_error
      · simp only [reads_bind, reads_pure] at he
        obtain ⟨elseBranch, r, h, hr, rfl, rfl⟩ := he
        exact .inr ⟨_, elseBranch, h₄, .inl hr, rfl⟩
      · simp only [reads_bind, reads_pure] at he
        obtain ⟨elseBranch, r, h, hr, rfl, rfl⟩ := he
        exact .inr ⟨_, elseBranch, h₄, .inr hr, rfl⟩
      · exact absurd he not_reads_error
  · rintro ⟨line, r₁, condition, r₂, thenBranch, r₃, rfl, hc, hb, he⟩
    refine ⟨line, r₁, Nat.lt_succ_self _, rfl, condition, r₂, hc.shorter, hc, thenBranch, r₃,
      hb.shorter, hb, ?_⟩
    rcases he with ⟨h₄, rfl, rfl⟩ | ⟨r₄, elseBranch, h₄, hr, rfl⟩
    · split
      · exact reads_pure.mpr ⟨rfl, rfl⟩
      · next r₄ h₄' => simp [h₄] at h₄'
    · split
      · next h₄' => simp [h₄] at h₄'
      · next r₄' h₄' =>
        cases h₄.symm.trans h₄'
        rcases hr with hr | hr
        · obtain ⟨l, after, rfl⟩ := hr.starts_conditional
          simp only [reads_bind, reads_pure]
          exact ⟨elseBranch, rest, hr.shorter, hr, rfl, rfl⟩
        · obtain ⟨l, after, es, rfl, -⟩ := reads_block.mp hr
          simp only [reads_bind, reads_pure]
          exact ⟨elseBranch, rest, hr.shorter, hr, rfl, rfl⟩

/-- A statement that is read as a conditional or a loop is told from its first word. -/
theorem Reads.statement
    (h : Reads (conditional ts) e rest ∨ Reads (whileLoop ts) e rest ∨ Reads (forLoop ts) e rest) :
    Reads (statement ts) e rest := by
  rcases h with h | h | h
  · obtain ⟨line, after, rfl⟩ := h.starts_conditional
    rwa [Parser.statement]
  · obtain ⟨line, after, _, _, _, rfl, -⟩ := reads_whileLoop.mp h
    rwa [Parser.statement]
  · obtain ⟨line, counter, l₁, l₂, after, _, _, _, _, _, _, rfl, -⟩ := reads_forLoop.mp h
    rwa [Parser.statement]

theorem reads_blockBody {us : List Located} {line : Nat} {es : List Expr}
    (hus : skipSeparators ts = us) :
    Reads (blockBody line ts) es rest ↔
      (∃ l, us = ⟨.closeBrace, l⟩ :: rest ∧ es = []) ∨
      ∃ first r others, (∀ l after, us ≠ ⟨.closeBrace, l⟩ :: after) ∧
        Reads (statement us) first r ∧ endStatement true r = .ok () ∧
        Reads (blockBody line r) others rest ∧ es = first :: others := by
  rw [blockBody]
  split
  · next h =>
    obtain rfl : us = [] := hus.symm.trans h
    constructor
    · intro he
      exact absurd he not_reads_error
    · rintro (⟨l, hl, -⟩ | ⟨first, r, others, -, hf, -⟩)
      · cases hl
      · exact absurd hf.shorter (Nat.not_lt_zero _)
  · next l r h =>
    obtain rfl : us = _ := hus.symm.trans h
    constructor
    · intro he
      obtain ⟨rfl, rfl⟩ := reads_ok.mp he
      exact .inl ⟨l, rfl, rfl⟩
    · rintro (⟨l', hl, rfl⟩ | ⟨first, r', others, hne, -⟩)
      · cases hl
        exact reads_ok.mpr ⟨rfl, rfl⟩
      · exact absurd rfl (hne l r)
  · next t after hne h =>
    obtain rfl : us = _ := hus.symm.trans h
    simp only [reads_bind, reads_check, reads_pure]
    constructor
    · rintro ⟨first, r, h₁, hf, hs, others, r', h₂, ho, rfl, rfl⟩
      exact .inr ⟨first, r, others, fun l _ hl => hne l (List.cons.inj hl).1, hf, hs, ho, rfl⟩
    · rintro (⟨l, hl, -⟩ | ⟨first, r, others, -, hf, hs, ho, rfl⟩)
      · exact absurd (List.cons.inj hl).1 (hne l)
      · exact ⟨first, r, hf.shorter, hf, hs, others, rest, ho.shorter, ho, rfl, rfl⟩

theorem program_eq_ok_iff {us : List Located} {es : List Expr} (hus : skipSeparators ts = us) :
    program ts = .ok es ↔
      (us = [] ∧ es = []) ∨
      ∃ first r others, Reads (statement us) first r ∧ endStatement false r = .ok () ∧
        program r = .ok others ∧ es = first :: others := by
  rw [program]
  split
  · next h =>
    obtain rfl : us = [] := hus.symm.trans h
    constructor
    · intro he
      cases he
      exact .inl ⟨rfl, rfl⟩
    · rintro (⟨-, rfl⟩ | ⟨first, r, others, hf, -⟩)
      · rfl
      · exact absurd hf.shorter (Nat.not_lt_zero _)
  · next t after h =>
    obtain rfl : us = _ := hus.symm.trans h
    constructor
    · intro he
      obtain ⟨p, hp, he⟩ := bind_eq_ok_iff.mp he
      obtain ⟨u, hs, he⟩ := bind_eq_ok_iff.mp he
      obtain ⟨others, ho, he⟩ := bind_eq_ok_iff.mp he
      cases he
      exact .inr ⟨p.value, p.rest, others, ⟨p.shorter, hp⟩, hs, ho, rfl⟩
    · rintro (⟨ht, -⟩ | ⟨first, r, others, ⟨h₁, hf⟩, hs, ho, rfl⟩)
      · cases ht
      · simp only [hf, hs, ho, bind, Except.bind, pure, Except.pure]

theorem program_eq_error_iff {us : List Located} {failure : Failure}
    (hus : skipSeparators ts = us) :
    program ts = .error failure ↔
      us ≠ [] ∧ (statement us = .error failure ∨
        ∃ first r, Reads (statement us) first r ∧
          (endStatement false r = .error failure ∨
            endStatement false r = .ok () ∧ program r = .error failure)) := by
  rw [program]
  split
  · next h =>
    obtain rfl : us = [] := hus.symm.trans h
    simp
  · next t after h =>
    obtain rfl : us = _ := hus.symm.trans h
    constructor
    · intro he
      refine ⟨List.cons_ne_nil t after, ?_⟩
      rcases bind_eq_error_iff.mp he with he | ⟨⟨first, r, h₁⟩, hf, he⟩
      · exact .inl he
      · refine .inr ⟨first, r, ⟨h₁, hf⟩, ?_⟩
        rcases bind_eq_error_iff.mp he with he | ⟨_, hs, he⟩
        · exact .inl he
        · rcases bind_eq_error_iff.mp he with he | ⟨others, -, he⟩
          · exact .inr ⟨hs, he⟩
          · cases he
    · rintro ⟨-, he | ⟨first, r, ⟨h₁, hf⟩, he | ⟨hs, he⟩⟩⟩
      · simp only [he, bind, Except.bind]
      · simp only [hf, he, bind, Except.bind]
      · simp only [hf, hs, he, bind, Except.bind]

theorem parse_eq_ok_iff_program :
    parse ts = .ok e ↔ ∃ es, program ts = .ok es ∧ e = .block es 1 := by
  unfold parse
  cases program ts with
  | ok es => simp [eq_comm]
  | error failure => simp

theorem parse_eq_error_iff_program {error : ParseError} :
    parse ts = .error error ↔
      ∃ failure, program ts = .error failure ∧ error = failure.error.locateEnd (lastLine ts) := by
  unfold parse
  cases program ts with
  | ok es => simp
  | error failure => simp [eq_comm]

end

end BoundedScript.Parser
