import BoundedScript.Proofs.Concatenation
import Mathlib.Data.List.Basic

/-!
# A for loop is its unrolling

A loop over the integers from one bound to another does what a block does that binds the counter to
the first of them, runs the body, binds the counter to the second, runs the body and so on. Which
integers these are is settled before the first pass, so nothing that the body binds changes them. If
there are more than the ceiling allows, the counter still gets the first one too many.
-/

namespace BoundedScript

namespace Integer64

/-- The integers from `a` on, `count` of them, as far as they are in range. -/
def ascending (a : Integer64) (count : Nat) : List Integer64 :=
  (List.range count).filterMap fun i : Nat => ofInt? (a.toInt + i)

/-- The integers from `a` to `b` in ascending order. -/
def upTo (a b : Integer64) : List Integer64 := a.ascending (b.toInt - a.toInt + 1).toNat

@[simp]
theorem ascending_zero (a : Integer64) : a.ascending 0 = [] := rfl

theorem ascending_succ {a : Integer64} {count : Nat} (h : a.toInt + count < 0x8000000000000000) :
    a.ascending (count + 1) = a :: a.next.ascending count := by
  have hrest (i : Nat) (hi : i ∈ List.range count) :
      ofInt? (a.toInt + (i + 1 : Nat)) = ofInt? (a.next.toInt + i) := by
    have hlt := List.mem_range.mp hi
    rw [toInt_next (by omega)]
    congr 1
    omega
  simp only [ascending, List.range_succ_eq_map, List.filterMap_cons, List.filterMap_map]
  simp only [Int.natCast_zero, Int.add_zero, ofInt?_toInt, List.cons.injEq, true_and]
  exact List.filterMap_congr hrest

theorem toInt_next_le (a : Integer64) : a.next.toInt ≤ a.toInt + 1 := by
  by_cases h : a.toInt + 1 < 0x8000000000000000
  · rw [toInt_next h]
  · have hnone : ofInt? (a.toInt + 1) = none := ofInt?_eq_none_iff.mpr (.inr (by omega))
    rw [next, hnone, Option.getD_none]
    omega

/-- None of them is left out if the last one is in range. -/
theorem map_toInt_ascending {a : Integer64} {count : Nat}
    (h : a.toInt + count ≤ 0x8000000000000000) :
    (a.ascending count).map toInt = (List.range count).map fun i : Nat => a.toInt + i := by
  rw [ascending, List.map_filterMap, List.filterMap_eq_map_iff_forall_eq_some]
  intro i hi
  have hlt := List.mem_range.mp hi
  have hlower := a.lower
  obtain ⟨n, hn⟩ : ∃ n : Integer64, n.toInt = a.toInt + i :=
    ⟨⟨a.toInt + i, by omega, by omega⟩, rfl⟩
  rw [← hn, ofInt?_toInt, Option.map_some]

theorem length_ascending {a : Integer64} {count : Nat} (h : a.toInt + count ≤ 0x8000000000000000) :
    (a.ascending count).length = count := by
  have hlength := congrArg List.length (map_toInt_ascending h)
  simpa using hlength

theorem take_ascending {a : Integer64} {count room : Nat} (hroom : room ≤ count)
    (h : a.toInt + count ≤ 0x8000000000000000) :
    (a.ascending count).take room = a.ascending room := by
  have hinjective : Function.Injective toInt := fun _ _ => ext
  apply List.map_injective_iff.mpr hinjective
  rw [List.map_take, map_toInt_ascending h, map_toInt_ascending (by omega), ← List.map_take,
    List.take_range, Nat.min_eq_left hroom]

end Integer64

namespace Expr

/-- The statement that binds the counter of a loop. -/
def bindCounter (counter : String) (line : Nat) (n : Integer64) : Expr :=
  .assignment counter (.literal (.integer n) line) line

/-- The statements that a loop over the given integers stands for. -/
def unrolled (counter : String) (body : Expr) (line : Nat) (ns : List Integer64) : List Expr :=
  ns.flatMap fun n => [bindCounter counter line n, body]

variable {limit : Nat} {counter : String} {body : Expr} {line : Nat}

@[simp]
theorem unrolled_nil : unrolled counter body line [] = [] := rfl

theorem eval_bindCounter (n : Integer64) :
    (bindCounter counter line n).eval limit = (do
      EvalM.assign counter (.integer n)
      return none) := by
  simp only [bindCounter, eval, EvalM.valueOf, pure_bind, Value.ofLiteral]

theorem evalAll_unrolled_cons (last : Option Value) (n : Integer64) (ns : List Integer64) :
    evalAll limit last (unrolled counter body line (n :: ns)) = (do
      EvalM.assign counter (.integer n)
      let value ← body.eval limit
      evalAll limit value (unrolled counter body line ns)) := by
  simp only [unrolled, List.flatMap_cons, List.cons_append, List.nil_append, evalAll,
    eval_bindCounter, bind_assoc, pure_bind]

/-- The last pass starts where the passes before it left the variables. -/
theorem outcome_unrolled_concat (ns : List Integer64) (n : Integer64) (env : Environment) :
    ((block (unrolled counter body line (ns ++ [n])) line).eval limit).outcome env =
      match ((block (unrolled counter body line ns) line).eval limit).outcome env with
      | (.ok _, before) => (body.eval limit).outcome (before.assign counter (.integer n))
      | (.error err, env') => (.error err, env') := by
  have hlast (value : Option Value) :
      evalAll limit value (unrolled counter body line [n]) = (do
        EvalM.assign counter (.integer n)
        body.eval limit) := by
    rw [evalAll_unrolled_cons]
    simp only [unrolled_nil, evalAll, bind_pure]
  have happend : unrolled counter body line (ns ++ [n]) =
      unrolled counter body line ns ++ unrolled counter body line [n] := List.flatMap_append
  rw [eval, eval, happend, evalAll_append, EvalM.outcome_bind]
  rcases (evalAll limit none (unrolled counter body line ns)).outcome env with ⟨err | value, before⟩
  · rfl
  · simp only [hlast, EvalM.outcome_bind, EvalM.outcome_assign]

end Expr

namespace EvalM

open BoundedScript.Expr

variable {limit : Nat} {counter : String} {body : Expr} {guard : LoopGuard} {n : Integer64}
  {last : Option Value}

theorem repeatFor_succ_of_allows (h : guard.advance.Allows) (times : Nat) :
    repeatFor guard counter (body.eval limit) (times + 1) n last = (do
      assign counter (.integer n)
      let value ← body.eval limit
      repeatFor guard.advance counter (body.eval limit) times n.next value) := by
  rw [repeatFor, if_pos h]

theorem repeatFor_succ_of_not_allows (h : ¬ guard.advance.Allows) (times : Nat) :
    repeatFor guard counter (body.eval limit) (times + 1) n last = (do
      assign counter (.integer n)
      throw guard.exceeded) := by
  rw [repeatFor, if_neg h]

/-- A loop that the ceiling lets finish does what its unrolling does. -/
theorem repeatFor_eq_evalAll {times : Nat} (line : Nat)
    (hroom : guard.count + times ≤ guard.limit)
    (hrange : n.toInt + times ≤ 0x8000000000000000) :
    repeatFor guard counter (body.eval limit) times n last =
      evalAll limit last (unrolled counter body line (n.ascending times)) := by
  induction times generalizing guard n last with
  | zero => rw [repeatFor, Integer64.ascending_zero, unrolled_nil, evalAll]
  | succ times ih =>
    have hallows : guard.advance.Allows := by
      simp only [LoopGuard.Allows, LoopGuard.advance]
      omega
    have hroom' : guard.advance.count + times ≤ guard.advance.limit := by
      simp only [LoopGuard.advance]
      omega
    have hrange' : n.next.toInt + times ≤ 0x8000000000000000 := by
      have hnext := n.toInt_next_le
      omega
    rw [repeatFor_succ_of_allows hallows, Integer64.ascending_succ (by omega),
      evalAll_unrolled_cons]
    simp only [ih hroom' hrange']

/-- A loop that is not finished at the ceiling takes all passes that it may take, binds its counter
once more and fails. -/
theorem repeatFor_eq_exceeded {times room : Nat} (line : Nat) {next : Integer64}
    (hlimit : guard.limit = guard.count + room) (htimes : room < times)
    (hnext : next.toInt = n.toInt + room) :
    repeatFor guard counter (body.eval limit) times n last = (do
      let _ ← evalAll limit last
        (unrolled counter body line (n.ascending room) ++ [bindCounter counter line next])
      throw guard.exceeded) := by
  induction room generalizing guard n last times with
  | zero =>
    obtain ⟨times, rfl⟩ := Nat.exists_eq_add_one.mpr htimes
    have hfull : ¬ guard.advance.Allows := by
      simp only [LoopGuard.Allows, LoopGuard.advance]
      omega
    obtain rfl : next = n := Integer64.ext (by simpa using hnext)
    rw [repeatFor_succ_of_not_allows hfull, Integer64.ascending_zero, unrolled_nil]
    simp only [List.nil_append, evalAll, eval_bindCounter, bind_assoc, pure_bind]
  | succ room ih =>
    obtain ⟨times, rfl⟩ := Nat.exists_eq_add_one.mpr (Nat.zero_lt_of_lt htimes)
    have hupper := next.upper
    have hallows : guard.advance.Allows := by
      simp only [LoopGuard.Allows, LoopGuard.advance]
      omega
    have hlimit' : guard.advance.limit = guard.advance.count + room := by
      simp only [LoopGuard.advance]
      omega
    have hnext' : next.toInt = n.next.toInt + room := by
      rw [Integer64.toInt_next (by omega)]
      omega
    rw [repeatFor_succ_of_allows hallows, Integer64.ascending_succ (by omega), evalAll_append,
      evalAll_unrolled_cons]
    simp only [ih hlimit' (Nat.lt_of_succ_lt_succ htimes) hnext', evalAll_append, bind_assoc]
    rfl

end EvalM

open EvalM BoundedScript.Expr

theorem outcome_forLoop {counter : String} {first last body : Expr} {line limit : Nat}
    {env mid env' : Environment} {a b : Integer64}
    (ha : (first.eval limit).outcome env = (.ok (some (.integer a)), mid))
    (hb : (last.eval limit).outcome mid = (.ok (some (.integer b)), env')) :
    ((Expr.forLoop counter first last body line).eval limit).outcome env =
      (repeatFor ⟨limit, line, 0⟩ counter (body.eval limit) (b.toInt - a.toInt + 1).toNat a
        none).outcome env' := by
  have hinteger {e : Expr} {n : Integer64} {env env' : Environment}
      (h : (e.eval limit).outcome env = (.ok (some (.integer n)), env')) :
      (integerOf line (e.eval limit)).outcome env = (.ok n, env') := by
    rw [integerOf, valueOf, outcome_bind, outcome_bind, h]
    rfl
  rw [eval, outcome_bind_of_ok (hinteger ha), outcome_bind_of_ok (hinteger hb)]

/-- A loop over the integers from `a` to `b` does what its unrolling does, up to the first error of
the body. With more integers than the ceiling allows, it takes as many passes as are allowed, binds
the counter to the integer after them and fails. Otherwise its value is that of the last pass, and
without a pass it has none. -/
theorem for_loop_is_its_unrolling {counter : String} {first last body : Expr} {line limit : Nat}
    {env mid env' : Environment} {a b : Integer64}
    (ha : (first.eval limit).outcome env = (.ok (some (.integer a)), mid))
    (hb : (last.eval limit).outcome mid = (.ok (some (.integer b)), env')) :
    let ns := a.upTo b
    let run (es : List Expr) := ((Expr.block es line).eval limit).outcome env'
    let outcome := ((Expr.forLoop counter first last body line).eval limit).outcome env
    ns.map Integer64.toInt =
      (List.range (b.toInt - a.toInt + 1).toNat).map (fun i : Nat => a.toInt + i) ∧
    (ns.length ≤ limit → outcome = run (unrolled counter body line ns)) ∧
    (limit < ns.length → ∃ next : Integer64, next.toInt = a.toInt + limit ∧ outcome =
      match run (unrolled counter body line (ns.take limit) ++ [bindCounter counter line next]) with
      | (.ok _, final) => (.error ⟨.loopLimit limit, line⟩, final)
      | (.error err, final) => (.error err, final)) ∧
    (∀ ms n, ns = ms ++ [n] → ns.length ≤ limit → outcome =
      match run (unrolled counter body line ms) with
      | (.ok _, before) => (body.eval limit).outcome (before.assign counter (.integer n))
      | (.error err, final) => (.error err, final)) ∧
    (b.toInt < a.toInt → outcome = (.ok none, env')) := by
  intro ns run outcome
  have hlower := a.lower
  have hupper := a.upper
  have hupper' := b.upper
  have hrange : a.toInt + (b.toInt - a.toInt + 1).toNat ≤ 0x8000000000000000 := by omega
  have hlength : ns.length = (b.toInt - a.toInt + 1).toNat := Integer64.length_ascending hrange
  have houtcome : outcome = (repeatFor ⟨limit, line, 0⟩ counter (body.eval limit)
      (b.toInt - a.toInt + 1).toNat a none).outcome env' := outcome_forLoop ha hb
  have hrun (es : List Expr) : run es = (evalAll limit none es).outcome env' := by
    simp only [run, Expr.eval]
  have hfits (h : ns.length ≤ limit) : outcome = run (unrolled counter body line ns) := by
    rw [houtcome, hrun, repeatFor_eq_evalAll line (by simp only; omega) hrange]
    rfl
  refine ⟨Integer64.map_toInt_ascending hrange, hfits, ?_, ?_, ?_⟩
  · intro hexceeds
    obtain ⟨next, hnext⟩ : ∃ next : Integer64, next.toInt = a.toInt + limit :=
      ⟨⟨a.toInt + limit, by omega, by omega⟩, rfl⟩
    have htake : ns.take limit = a.ascending limit :=
      Integer64.take_ascending (by omega) hrange
    refine ⟨next, hnext, ?_⟩
    rw [houtcome, hrun, htake,
      repeatFor_eq_exceeded line (Nat.zero_add limit).symm (hlength ▸ hexceeds) hnext, outcome_bind]
    generalize (evalAll limit none _).outcome env' = reached
    rcases reached with ⟨err | value, final⟩ <;> rfl
  · intro ms n hns h
    rw [hfits h, hns]
    exact outcome_unrolled_concat ..
  · intro hempty
    have hnil : ns = [] := List.eq_nil_of_length_eq_zero (by omega)
    rw [hfits (by omega), hnil, unrolled_nil, hrun, Expr.evalAll]
    rfl

/-- The largest integer has none after it, and the body here overwrites the counter. With room for
one pass only, the counter is left at the integer of the second. -/
theorem for_loop_ends_at_largest_integer :
    let literal (n : Integer64) : Expr := .literal (.integer n) 1
    let zero : Integer64 := ⟨0, by decide, by decide⟩
    let a : Integer64 := ⟨9223372036854775806, by decide, by decide⟩
    let b : Integer64 := ⟨9223372036854775807, by decide, by decide⟩
    let body := bindCounter "i" 1 zero
    let loop (limit : Nat) :=
      ((Expr.forLoop "i" (literal a) (literal b) body 1).eval limit).outcome ∅
    let i (n : Integer64) := (∅ : Environment).assign "i" (.integer n)
    loop 2 = (.ok none, i zero) ∧ (loop 2).2.get? "i" = some (.integer zero) ∧
      loop 1 = (.error ⟨.loopLimit 1, 1⟩, i b) ∧ (loop 1).2.get? "i" = some (.integer b) := by
  intro literal zero a b body loop i
  have hbound (n : Integer64) (limit : Nat) :
      ((literal n).eval limit).outcome ∅ = (.ok (some (.integer n)), ∅) := rfl
  have hvalues : a.upTo b = [a, b] := by decide +kernel
  have hunrolls (limit : Nat) :=
    @for_loop_is_its_unrolling "i" _ _ body 1 _ _ _ _ _ _ (hbound a limit) (hbound b limit)
  obtain ⟨-, hfits, -⟩ := hunrolls 2
  obtain ⟨-, -, hexceeds, -⟩ := hunrolls 1
  have hrebind (env : Environment) (v w : Value) :
      (env.assign "i" v).assign "i" w = env.assign "i" w := by
    ext name
    by_cases hname : "i" = name <;> simp [hname]
  rw [hvalues] at hfits hexceeds
  obtain ⟨next, hnext, hloop⟩ := hexceeds (by decide)
  obtain rfl : next = b := Integer64.ext hnext
  have hfinished : loop 2 = (.ok none, i zero) := by
    have hrun : loop 2 = (.ok none, (((i a).assign "i" (.integer zero)).assign "i"
        (.integer b)).assign "i" (.integer zero)) := hfits (by decide)
    rw [hrun, hrebind, hrebind, hrebind]
  have hstopped : loop 1 = (.error ⟨.loopLimit 1, 1⟩, i b) := by
    have hrun : loop 1 = (.error ⟨.loopLimit 1, 1⟩,
        ((i a).assign "i" (.integer zero)).assign "i" (.integer b)) := hloop
    rw [hrun, hrebind, hrebind]
  have hi (n : Integer64) : (i n).get? "i" = some (.integer n) := by simp [i]
  exact ⟨hfinished, hfinished ▸ hi zero, hstopped, hstopped ▸ hi b⟩

end BoundedScript
