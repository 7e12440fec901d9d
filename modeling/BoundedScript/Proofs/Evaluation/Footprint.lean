import BoundedScript.Proofs.Evaluation.Invariant

/-!
# What a run reads and writes

The text of a program bounds its effect: a run looks only at variables that the tree mentions and
binds only names that an assignment or a loop of the tree binds. So the bindings that a run adds or
replaces are a function of the variables that it may look at, whether the run succeeds or fails, and
the rest of the environment passes through it unseen and unchanged.
-/

namespace BoundedScript

namespace Environment

/-- The bindings of `changes` on top of those of `env`. -/
def override (env changes : Environment) : Environment := ⟨env.bindings ∪ changes.bindings⟩

variable (env changes later : Environment) (name : String)

@[simp]
theorem get?_override :
    (env.override changes).get? name = (changes.get? name).or (env.get? name) :=
  Std.ExtTreeMap.getElem?_union

@[simp]
theorem override_empty : env.override empty = env := by
  ext1 name
  simp

theorem override_override :
    (env.override changes).override later = env.override (changes.override later) := by
  ext1 name
  simp [Option.or_assoc]

theorem assign_eq_override (value : Value) :
    env.assign name value = env.override (empty.assign name value) := by
  ext1 other
  by_cases h : name = other <;> simp [h]

/-- Both bind a name of the given ones to the same value, or neither binds it. -/
def AgreeOn (names : String → Prop) (env env' : Environment) : Prop :=
  ∀ name, names name → env.get? name = env'.get? name

variable {names : String → Prop} {env env' : Environment}

theorem AgreeOn.refl (names : String → Prop) (env : Environment) : AgreeOn names env env := by
  intro name _
  rfl

theorem AgreeOn.override (h : AgreeOn names env env') (changes : Environment) :
    AgreeOn names (env.override changes) (env'.override changes) := by
  intro name hname
  rw [get?_override, get?_override, h name hname]

end Environment

open Environment

namespace Expr

/-- The tree has an operand that is this variable. -/
def Reads (e : Expr) (name : String) : Prop := ∃ line, var name line ∈ e.nodes

/-- The tree has an assignment to this name or a loop that counts with it. -/
def Writes (e : Expr) (name : String) : Prop :=
  (∃ value line, assignment name value line ∈ e.nodes) ∨
    ∃ first last body line, forLoop name first last body line ∈ e.nodes

/-- The tree reads and writes nothing but what is allowed. -/
structure Within (reads writes : String → Prop) (e : Expr) : Prop where
  reads : ∀ name, e.Reads name → reads name
  writes : ∀ name, e.Writes name → writes name

theorem writes_of_boundName? {e node : Expr} {name : String} (h : node ∈ e.nodes)
    (hname : node.boundName? = some name) : e.Writes name := by
  cases node with
  | assignment _ value line =>
    cases hname
    exact .inl ⟨value, line, h⟩
  | forLoop _ first last body line =>
    cases hname
    exact .inr ⟨first, last, body, line, h⟩
  | _ => cases hname

end Expr

namespace EvalM

variable {α β : Type} {reads writes : String → Prop}

/-- The result and the changes are the same in all environments that agree on `reads`, and all
changes are to `writes`. -/
def Confined (reads writes : String → Prop) (x : EvalM α) : Prop :=
  ∀ env, ∃ result changes, (∀ name, (changes.get? name).isSome → writes name) ∧
    ∀ env', AgreeOn reads env env' → x.outcome env' = (result, env'.override changes)

/-- A computation that leaves every environment alone and has the same result in all that agree. -/
theorem confined_of_unchanged {x : EvalM α} {result : Environment → Except RuntimeError α}
    (hx : ∀ env, x.outcome env = (result env, env))
    (hresult : ∀ env env', AgreeOn reads env env' → result env' = result env) :
    Confined reads writes x := by
  intro env
  refine ⟨result env, empty, by simp, ?_⟩
  intro env' h
  rw [hx, hresult env env' h, override_empty]

theorem confined_pure (a : α) : Confined reads writes (pure a : EvalM α) :=
  confined_of_unchanged (fun _ => rfl) fun _ _ _ => rfl

theorem confined_throw (err : RuntimeError) : Confined reads writes (throw err : EvalM α) :=
  confined_of_unchanged (fun _ => rfl) fun _ _ _ => rfl

theorem confined_onLine (line : Nat) (x : Except Fault α) :
    Confined reads writes (onLine line x) := by
  cases x with
  | ok a => exact confined_pure a
  | error fault => exact confined_throw _

theorem confined_lookup {name : String} (line : Nat) (h : reads name) :
    Confined reads writes (lookup name line) := by
  apply confined_of_unchanged (outcome_lookup name line)
  intro env env' hagree
  rw [hagree name h]

theorem confined_assign {name : String} (value : Value) (h : writes name) :
    Confined reads writes (assign name value) := by
  intro env
  refine ⟨.ok (), empty.assign name value, ?_, ?_⟩
  · intro other hother
    by_cases hname : name = other
    · exact hname ▸ h
    · simp [hname] at hother
  · intro env' _
    rw [outcome_assign, assign_eq_override]

theorem Confined.bind {x : EvalM α} {f : α → EvalM β} (hx : Confined reads writes x)
    (hf : ∀ a, Confined reads writes (f a)) : Confined reads writes (x >>= f) := by
  intro env
  obtain ⟨result, changes, hchanges, hx⟩ := hx env
  cases result with
  | error err =>
    exact ⟨.error err, changes, hchanges, fun env' h => outcome_bind_of_error (hx env' h)⟩
  | ok a =>
    obtain ⟨result, later, hlater, hf⟩ := hf a (env.override changes)
    refine ⟨result, changes.override later, ?_, ?_⟩
    · intro name hname
      rw [get?_override, Option.isSome_or, Bool.or_eq_true] at hname
      exact hname.elim (hlater name) (hchanges name)
    · intro env' h
      rw [outcome_bind_of_ok (hx env' h), hf _ (h.override changes), override_override]

theorem sequential_confined : Sequential fun _ => Confined reads writes :=
  ⟨confined_pure, Confined.bind⟩

end EvalM

open EvalM

namespace Expr

variable {reads writes : String → Prop} {limit : Nat}

theorem confined_steps {e node : Expr} (h : e.Within reads writes) (hnode : node ∈ e.nodes) :
    node.StepsHave (fun _ => Confined reads writes) limit where
  valueOf _ _ hvalue := sequential_confined.valueOf hvalue (confined_throw _)
  onLine _ := confined_onLine _ _
  lookup {name line} hvar := confined_lookup line (h.reads name ⟨line, hvar ▸ hnode⟩)
  assign {name} hname value :=
    confined_assign value (h.writes name (writes_of_boundName? hnode hname))
  stop _ := confined_throw _

theorem eval_confined (e : Expr) (h : e.Within reads writes) :
    Confined reads writes (e.eval limit) :=
  eval_of_steps sequential_confined e fun _ => confined_steps h

end Expr

/-- Two environments that agree on the variables that a tree reads give the same outcome, and the
same bindings of names that the tree writes come on top of either. -/
theorem run_depends_on_reads_and_changes_writes {e : Expr} {env₁ env₂ : Environment}
    (h : ∀ name, e.Reads name → env₁.get? name = env₂.get? name) (limit : Nat) :
    ∃ result changes, (∀ name, changes.contains name = true → e.Writes name) ∧
      ∀ env ∈ [env₁, env₂],
        (e.eval limit).outcome env = (result, env.override changes) ∧
        (∀ name, env.contains name = true →
          ((e.eval limit).outcome env).2.contains name = true) ∧
        ∀ name, ¬ e.Writes name → ((e.eval limit).outcome env).2.get? name = env.get? name := by
  have hconfined : Confined e.Reads e.Writes (e.eval limit) :=
    e.eval_confined ⟨fun _ => id, fun _ => id⟩
  obtain ⟨result, changes, hchanges, hrun⟩ := hconfined env₁
  refine ⟨result, changes, ?_, ?_⟩
  · intro name hname
    rw [contains_eq_isSome] at hname
    exact hchanges name hname
  · intro env henv
    have houtcome : (e.eval limit).outcome env = (result, env.override changes) := by
      apply hrun
      rcases List.mem_cons.mp henv with rfl | henv
      · exact .refl _ _
      · exact List.mem_singleton.mp henv ▸ h
    refine ⟨houtcome, ?_, ?_⟩
    · intro name hname
      rw [contains_eq_isSome] at hname ⊢
      rw [houtcome, get?_override, Option.isSome_or, hname, Bool.or_true]
    · intro name hname
      have hnone : changes.get? name = none := by
        rw [← Option.not_isSome_iff_eq_none]
        exact fun hsome => hname (hchanges name hsome)
      rw [houtcome, get?_override, hnone, Option.none_or]

/-- The second environment binds a name that `y = x; q` neither reads nor writes. Both runs fail at
`q`, after `y` was bound. -/
theorem failed_run_depends_on_reads_and_changes_writes :
    let e : Expr := .block [.assignment "y" (.var "x" 1) 1, .var "q" 2] 1
    let env₁ : Environment := (∅ : Environment).assign "x" (.boolean true)
    let env₂ := env₁.assign "z" (.boolean false)
    (∀ name, e.Reads name → env₁.get? name = env₂.get? name) ∧
      ((e.eval 0).outcome env₁).1 = .error ⟨.unknownVariable "q", 2⟩ ∧
      ((e.eval 0).outcome env₂).1 = .error ⟨.unknownVariable "q", 2⟩ ∧
      ((e.eval 0).outcome env₂).2.get? "z" = some (.boolean false) := by
  intro e env₁ env₂
  have hreads : ∀ name, e.Reads name → env₁.get? name = env₂.get? name := by
    rintro name ⟨line, hline⟩
    obtain ⟨rfl, -⟩ | ⟨rfl, -⟩ : (name = "x" ∧ line = 1) ∨ (name = "q" ∧ line = 2) := by
      simpa [e, Expr.nodes, Expr.nodesAll] using hline
    all_goals simp [env₂]
  have hfails : ((e.eval 0).outcome env₁).1 = .error ⟨.unknownVariable "q", 2⟩ := rfl
  obtain ⟨result, changes, -, hrun⟩ := run_depends_on_reads_and_changes_writes hreads 0
  obtain ⟨h₁, -⟩ := hrun env₁ (by simp)
  obtain ⟨h₂, -, hunchanged⟩ := hrun env₂ (by simp)
  rw [h₁] at hfails
  refine ⟨hreads, by rw [h₁]; exact hfails, by rw [h₂]; exact hfails, ?_⟩
  rw [hunchanged "z" (by simp [e, Expr.Writes, Expr.nodes, Expr.nodesAll])]
  simp [env₂]

end BoundedScript
