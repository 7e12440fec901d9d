import BoundedScript.Proofs.Evaluation.Outcome
import Mathlib.Logic.ExistsUnique

/-!
# What a while loop does

Condition and body take turns: the condition holds, and the body runs to its end. Each turn starts
where the one before it left the variables. After some number of turns, never more than the ceiling,
the condition is evaluated once more, and what happens then is all that the loop reports. Nothing
here asks what condition and body are, so they may be loops themselves and may have any effect.
-/

namespace BoundedScript

namespace EvalM

/-- `Turns condition body env k last env'` says that condition and body took `k` turns on the way
from `env` to `env'`, and that the body gave `last` in the last of them. -/
inductive Turns (condition body : EvalM (Option Value)) (env : Environment) :
    Nat → Option Value → Environment → Prop
  | start : Turns condition body env 0 none env
  | turn {k last mid mid' value env'} :
      Turns condition body env k last mid →
      condition.outcome mid = (.ok (some (.boolean true)), mid') →
      body.outcome mid' = (.ok value, env') →
      Turns condition body env (k + 1) value env'

/-- The reasons for which a loop takes no further turn. -/
inductive Stop where
  /-- The condition does not hold. -/
  | finished
  /-- The condition fails or gives no truth value. -/
  | conditionFails
  /-- The condition holds, but the body fails. -/
  | bodyFails
  /-- The condition holds, but all turns are used up. -/
  | ceiling
  deriving DecidableEq, Repr

/-- `StopsBy condition body limit line k last mid stop result` says that a loop which took `k` turns
up to `mid` and got `last` from them stops there for the reason `stop`. It evaluates the condition
once more, and `result` is its outcome with the variables that the last evaluation left. -/
inductive StopsBy (condition body : EvalM (Option Value)) (limit line k : Nat)
    (last : Option Value) (mid : Environment) :
    Stop → Except RuntimeError (Option Value) × Environment → Prop
  | finished {env'} :
      condition.outcome mid = (.ok (some (.boolean false)), env') →
      StopsBy condition body limit line k last mid .finished (.ok last, env')
  | conditionError {err env'} :
      condition.outcome mid = (.error err, env') →
      StopsBy condition body limit line k last mid .conditionFails (.error err, env')
  | conditionMissing {env'} :
      condition.outcome mid = (.ok none, env') →
      StopsBy condition body limit line k last mid .conditionFails
        (.error ⟨.missingValue, line⟩, env')
  | conditionNoBoolean {v env'} :
      condition.outcome mid = (.ok (some v), env') → v.kind ≠ .boolean →
      StopsBy condition body limit line k last mid .conditionFails
        (.error ⟨.expectedBoolean, line⟩, env')
  | bodyError {mid' err env'} :
      condition.outcome mid = (.ok (some (.boolean true)), mid') → k < limit →
      body.outcome mid' = (.error err, env') →
      StopsBy condition body limit line k last mid .bodyFails (.error err, env')
  | ceiling {env'} :
      condition.outcome mid = (.ok (some (.boolean true)), env') → k = limit →
      StopsBy condition body limit line k last mid .ceiling (.error ⟨.loopLimit limit, line⟩, env')

section

variable {condition body : EvalM (Option Value)} {env mid mid' env' : Environment}
  {k k' limit line : Nat} {last last' : Option Value} {stop stop' : Stop}
  {result result' : Except RuntimeError (Option Value) × Environment}

/-! ### Turns and stops are determined -/

theorem Turns.unique (h : Turns condition body env k last mid)
    (h' : Turns condition body env k last' mid') : last = last' ∧ mid = mid' := by
  induction h generalizing last' mid' with
  | start =>
    cases h'
    exact ⟨rfl, rfl⟩
  | turn _ hc hb ih =>
    cases h' with
    | turn h' hc' hb' =>
      obtain ⟨-, rfl⟩ := ih h'
      cases hc.symm.trans hc'
      cases hb.symm.trans hb'
      exact ⟨rfl, rfl⟩

/-- Before a turn there were all the turns before it. -/
theorem Turns.earlier (h : Turns condition body env k' last' mid') (hk : k < k') :
    ∃ last mid after value env', Turns condition body env k last mid ∧
      condition.outcome mid = (.ok (some (.boolean true)), after) ∧
      body.outcome after = (.ok value, env') := by
  induction h with
  | start => omega
  | @turn j last mid _ _ _ hturns hc hb ih =>
    rcases Nat.lt_or_eq_of_le (Nat.le_of_lt_succ hk) with hk | rfl
    · exact ih hk
    · exact ⟨_, _, _, _, _, hturns, hc, hb⟩

/-- A loop that stops takes no further turn. -/
theorem StopsBy.no_turn (h : StopsBy condition body limit line k last mid stop result)
    (hk : k < limit) {value : Option Value}
    (hc : condition.outcome mid = (.ok (some (.boolean true)), mid')) :
    body.outcome mid' ≠ (.ok value, env') := by
  intro hb
  cases h with
  | finished h => cases hc.symm.trans h
  | conditionError h => cases hc.symm.trans h
  | conditionMissing h => cases hc.symm.trans h
  | conditionNoBoolean h hv =>
    cases hc.symm.trans h
    exact hv rfl
  | bodyError h _ hfails =>
    cases hc.symm.trans h
    cases hb.symm.trans hfails
  | ceiling _ heq => omega

theorem StopsBy.unique (h : StopsBy condition body limit line k last mid stop result)
    (h' : StopsBy condition body limit line k last mid stop' result') : stop = stop' := by
  cases h <;> cases h' <;> grind [Value.kind]

/-! ### One more turn, or none -/

theorem outcome_truthOf (line : Nat) (x : EvalM (Option Value)) (env : Environment) :
    (truthOf line x).outcome env =
      match x.outcome env with
      | (.ok (some (.boolean b)), env') => (.ok b, env')
      | (.ok (some _), env') => (.error ⟨.expectedBoolean, line⟩, env')
      | (.ok none, env') => (.error ⟨.missingValue, line⟩, env')
      | (.error err, env') => (.error err, env') := by
  rw [truthOf, valueOf, outcome_bind, outcome_bind]
  rcases x.outcome env with ⟨err | _ | v, env'⟩
  · rfl
  · rfl
  · cases v <;> rfl

theorem outcome_repeatWhile (guard : LoopGuard) (test : EvalM Bool) (body : EvalM (Option Value))
    (last : Option Value) (env : Environment) :
    (repeatWhile guard test body last).outcome env =
      match test.outcome env with
      | (.error err, mid) => (.error err, mid)
      | (.ok false, mid) => (.ok last, mid)
      | (.ok true, mid) =>
        if guard.advance.Allows then
          match body.outcome mid with
          | (.ok value, env') => (repeatWhile guard.advance test body value).outcome env'
          | (.error err, env') => (.error err, env')
        else (.error guard.exceeded, mid) := by
  rw [repeatWhile, outcome_bind]
  rcases test.outcome env with ⟨err | _ | _, mid⟩
  · rfl
  · rfl
  · by_cases h : guard.advance.Allows
    · simp only [if_true, dif_pos h, if_pos h, outcome_bind]
      rcases body.outcome mid with ⟨_ | _, _⟩ <;> rfl
    · simp only [if_true, dif_neg h, if_neg h]
      rfl

/-- From where a loop stands after `k` turns it either stops or takes turn `k + 1` and goes on. -/
theorem stopsBy_or_turn {guard : LoopGuard} (hcount : guard.count ≤ guard.limit) :
    (∃ stop, StopsBy condition body guard.limit guard.line guard.count last mid stop
      ((repeatWhile guard (truthOf guard.line condition) body last).outcome mid)) ∨
    ∃ mid' value env', guard.advance.Allows ∧
      condition.outcome mid = (.ok (some (.boolean true)), mid') ∧
      body.outcome mid' = (.ok value, env') ∧
      (repeatWhile guard (truthOf guard.line condition) body last).outcome mid =
        (repeatWhile guard.advance (truthOf guard.line condition) body value).outcome env' := by
  rw [outcome_repeatWhile, outcome_truthOf]
  rcases hc : condition.outcome mid with ⟨err | _ | v, mid'⟩
  · exact .inl ⟨_, .conditionError hc⟩
  · exact .inl ⟨_, .conditionMissing hc⟩
  · cases v with
    | integer | real => exact .inl ⟨_, .conditionNoBoolean hc (by simp [Value.kind])⟩
    | boolean b =>
      cases b with
      | false => exact .inl ⟨_, .finished hc⟩
      | true =>
        by_cases hn : guard.advance.Allows
        · simp only [if_pos hn]
          rcases hb : body.outcome mid' with ⟨err | value, env'⟩
          · exact .inl ⟨_, .bodyError hc hn hb⟩
          · exact .inr ⟨mid', value, env', hn, rfl, hb, rfl⟩
        · simp only [if_neg hn]
          have hfull : guard.count = guard.limit := by
            simp only [LoopGuard.Allows, LoopGuard.advance] at hn
            omega
          exact .inl ⟨_, .ceiling hc hfull⟩

/-- A loop that has taken as many turns as it counted takes some more and stops. -/
theorem exists_turns_stopsBy (guard : LoopGuard) (last : Option Value)
    (hcount : guard.count ≤ guard.limit) (hturns : Turns condition body env guard.count last mid) :
    ∃ k last' mid', k ≤ guard.limit ∧ Turns condition body env k last' mid' ∧
      ∃ stop, StopsBy condition body guard.limit guard.line k last' mid' stop
        ((repeatWhile guard (truthOf guard.line condition) body last).outcome mid) := by
  induction guard, last using repeatWhile.induct generalizing mid with
  | case1 guard last ih =>
    rcases stopsBy_or_turn hcount with hstop | ⟨mid', value, env', hn, hc, hb, hgoes⟩
    · exact ⟨guard.count, last, mid, hcount, hturns, hstop⟩
    · rw [hgoes]
      exact ih hn value hn (hturns.turn hc hb)

/-- Two loops from the same place that stop, stop after equally many turns. -/
theorem StopsBy.turns_le (hturns : Turns condition body env k last mid)
    (h : StopsBy condition body limit line k last mid stop result) (hk : k' ≤ limit)
    (hturns' : Turns condition body env k' last' mid') : k' ≤ k := by
  apply Nat.le_of_not_lt
  intro hlt
  obtain ⟨_, _, _, _, _, hearlier, hc, hb⟩ := hturns'.earlier hlt
  obtain ⟨-, rfl⟩ := hturns.unique hearlier
  exact h.no_turn (by omega) hc hb

/-- While the condition holds, only the ceiling or the body can stop the loop. -/
theorem StopsBy.of_condition (h : StopsBy condition body limit line k last mid stop result)
    (hc : condition.outcome mid = (.ok (some (.boolean true)), mid')) :
    (k < limit ∧ ∃ err env', body.outcome mid' = (.error err, env') ∧ result = (.error err, env')) ∨
      (k = limit ∧ result = (.error ⟨.loopLimit limit, line⟩, mid')) := by
  cases h with
  | finished h => cases hc.symm.trans h
  | conditionError h => cases hc.symm.trans h
  | conditionMissing h => cases hc.symm.trans h
  | conditionNoBoolean h hv =>
    cases hc.symm.trans h
    exact absurd rfl hv
  | bodyError h hk hb =>
    cases hc.symm.trans h
    exact .inl ⟨hk, _, _, hb, rfl⟩
  | ceiling h hk =>
    cases hc.symm.trans h
    exact .inr ⟨hk, rfl⟩

end

end EvalM

open EvalM

/-- A while loop takes at most as many turns as its ceiling allows. It then stops for exactly one
reason, and its outcome says which: the value of the last turn, the error of the condition, the
error of the body or the ceiling. If the condition never fails to hold, the loop can end with an
error of the body or, after exactly as many turns as are allowed, at the ceiling. -/
theorem while_loop_takes_turns_and_stops (condition body : Expr) (line limit : Nat)
    (env : Environment) :
    let c := condition.eval limit
    let b := body.eval limit
    let outcome := ((Expr.whileLoop condition body line).eval limit).outcome env
    (∃! k, k ≤ limit ∧ ∃ last mid, Turns c b env k last mid ∧
      ∃! stop, StopsBy c b limit line k last mid stop outcome) ∧
    ((∀ k last mid, k ≤ limit → Turns c b env k last mid →
        ∃ mid', c.outcome mid = (.ok (some (.boolean true)), mid')) →
      ∃ k last mid mid', Turns c b env k last mid ∧
        c.outcome mid = (.ok (some (.boolean true)), mid') ∧
        ((k < limit ∧ ∃ err env',
            b.outcome mid' = (.error err, env') ∧ outcome = (.error err, env'))
          ∨ (k = limit ∧ outcome = (.error ⟨.loopLimit limit, line⟩, mid')))) := by
  intro c b outcome
  obtain ⟨k, last, mid, hk, hturns, stop, hstop⟩ :
      ∃ k last mid, k ≤ limit ∧ Turns c b env k last mid ∧
        ∃ stop, StopsBy c b limit line k last mid stop outcome := by
    have hloop : outcome =
        (repeatWhile ⟨limit, line, 0⟩ (truthOf line c) b none).outcome env := by
      simp only [outcome, Expr.eval, c, b]
    rw [hloop]
    exact exists_turns_stopsBy ⟨limit, line, 0⟩ none (Nat.zero_le _) .start
  constructor
  · refine ⟨k, ⟨hk, last, mid, hturns, stop, hstop, fun _ h => h.unique hstop⟩, ?_⟩
    rintro k' ⟨hk', last', mid', hturns', stop', hstop', -⟩
    exact Nat.le_antisymm (hstop.turns_le hturns hk' hturns') (hstop'.turns_le hturns' hk hturns)
  · intro hholds
    obtain ⟨mid', hc⟩ := hholds k last mid hk hturns
    exact ⟨k, last, mid, mid', hturns, hc, hstop.of_condition hc⟩

/-- A condition that is always true and a body that always succeeds. -/
theorem endless_loop_takes_three_turns :
    let yes : Expr := .literal (.boolean true) 1
    let body : Expr := .block [.assignment "x" yes 2] 1
    ∃ last mid, Turns (yes.eval 3) (body.eval 3) ∅ 3 last mid ∧
      ((Expr.whileLoop yes body 1).eval 3).outcome ∅ = (.error ⟨.loopLimit 3, 1⟩, mid) := by
  intro yes body
  have hyes (env : Environment) : (yes.eval 3).outcome env = (.ok (some (.boolean true)), env) := by
    simp only [yes, Expr.eval]
    rfl
  have hbody (env : Environment) :
      (body.eval 3).outcome env = (.ok none, env.assign "x" (.boolean true)) := by
    simp only [body, yes, Expr.eval, Expr.evalAll]
    rfl
  obtain ⟨k, last, mid, mid', hturns, hc, ⟨-, err, env', hb, -⟩ | ⟨rfl, houtcome⟩⟩ :=
    (while_loop_takes_turns_and_stops yes body 1 3 ∅).2 fun _ _ mid _ _ => ⟨mid, hyes mid⟩
  · cases (hbody mid').symm.trans hb
  · cases (hyes mid).symm.trans hc
    exact ⟨last, mid, hturns, houtcome⟩

end BoundedScript
