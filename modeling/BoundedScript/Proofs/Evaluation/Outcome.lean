import BoundedScript.Program

/-!
# Outcomes of computations

How the outcome of a compound computation comes from the outcomes of its parts.
-/

namespace BoundedScript.EvalM

variable {α β : Type} {x : EvalM α} {f : α → EvalM β} {env env' : Environment} {a : α}
  {err : RuntimeError}

@[simp]
theorem outcome_assign (name : String) (value : Value) (env : Environment) :
    (assign name value).outcome env = (.ok (), env.assign name value) := rfl

theorem outcome_lookup (name : String) (line : Nat) (env : Environment) :
    (lookup name line).outcome env =
      (match env.get? name with
        | some value => .ok value
        | none => .error ⟨.unknownVariable name, line⟩, env) := by
  change outcome (match env.get? name with
    | some value => pure value
    | none => throw ⟨.unknownVariable name, line⟩) env = _
  cases env.get? name <;> rfl

theorem outcome_bind (x : EvalM α) (f : α → EvalM β) (env : Environment) :
    (x >>= f).outcome env =
      match x.outcome env with
      | (.ok a, env') => (f a).outcome env'
      | (.error err, env') => (.error err, env') := by
  change ExceptT.bindCont f (x env).1 (x env).2 = _
  unfold outcome
  rcases x env with ⟨_ | a, env'⟩ <;> rfl

theorem outcome_bind_of_ok (h : x.outcome env = (.ok a, env')) :
    (x >>= f).outcome env = (f a).outcome env' := by
  rw [outcome_bind, h]

theorem outcome_bind_of_error (h : x.outcome env = (.error err, env')) :
    (x >>= f).outcome env = (.error err, env') := by
  rw [outcome_bind, h]

theorem exists_of_outcome_bind_ok {b : β} (h : (x >>= f).outcome env = (.ok b, env')) :
    ∃ a mid, x.outcome env = (.ok a, mid) ∧ (f a).outcome mid = (.ok b, env') := by
  rw [outcome_bind] at h
  rcases hx : x.outcome env with ⟨err | a, mid⟩
  · rw [hx] at h
    cases h
  · rw [hx] at h
    exact ⟨a, mid, rfl, h⟩

theorem error_or_exists_of_outcome_bind_error (h : (x >>= f).outcome env = (.error err, env')) :
    x.outcome env = (.error err, env') ∨
      ∃ a mid, x.outcome env = (.ok a, mid) ∧ (f a).outcome mid = (.error err, env') := by
  rw [outcome_bind] at h
  rcases hx : x.outcome env with ⟨err | a, mid⟩
  · rw [hx] at h
    cases h
    exact .inl rfl
  · rw [hx] at h
    exact .inr ⟨a, mid, rfl, h⟩

end BoundedScript.EvalM

namespace BoundedScript.Program

variable {limit : Nat} {source : String}

theorem parse_of_scan_error {e : ParseError} (h : Token.scan source = .error e) :
    parse source = .error e := by
  rw [parse, h]
  rfl

theorem parse_of_scan_ok {ts : List Located} (h : Token.scan source = .ok ts) :
    parse source = Parser.parse ts := by
  rw [parse, h]
  rfl

theorem run_of_parse_error {e : ParseError} (h : parse source = .error e) :
    run limit source = .error (.parse e) := by
  simp only [run, Session.run, h]

theorem run_of_parse_ok {tree : Expr} (h : parse source = .ok tree) :
    run limit source = ((tree.eval limit).outcome ∅).1.mapError .runtime := by
  simp only [run, Session.run, h, Session.eval, Session.perform]

end BoundedScript.Program
