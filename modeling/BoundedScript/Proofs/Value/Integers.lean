import BoundedScript.Evaluation
import Mathlib.Algebra.Ring.Parity
import Mathlib.Data.Rat.Floor
import Mathlib.Tactic.NormNum
import Mathlib.Tactic.Ring

/-!
# Integer results are exact

The operations on integers give the mathematical result if it is in range, and overflow if it is
not. For sums, differences and products that is how they are computed. A floor division is put right
after it was cut off toward zero, and a power is built up from products that have to be in range one
by one.
-/

namespace BoundedScript

/-- The range of 64-bit integers. -/
def InRange (n : ℤ) : Prop := -2 ^ 63 ≤ n ∧ n ≤ 2 ^ 63 - 1

theorem Integer64.inRange (a : Integer64) : InRange a.toInt := by
  have hlower := a.lower
  have hupper := a.upper
  unfold InRange
  omega

theorem Integer64.ofInt?_eq_none_iff_not_inRange {n : ℤ} : ofInt? n = none ↔ ¬ InRange n := by
  rw [ofInt?_eq_none_iff]
  unfold InRange
  omega

theorem exists_of_inRange {n : ℤ} (h : InRange n) : ∃ a : Integer64, a.toInt = n := by
  unfold InRange at h
  exact ⟨⟨n, by omega, by omega⟩, rfl⟩

/-! ### Floor division -/

/-- Rounding down and cutting off differ where the remainder does not have the sign of the
divisor. -/
theorem fdiv_eq_tdiv_or_pred {a b : ℤ} (hb : b ≠ 0) :
    a.fdiv b =
      if a.tmod b ≠ 0 ∧ decide (a.tmod b < 0) ≠ decide (b < 0) then a.tdiv b - 1
      else a.tdiv b := by
  rw [Int.fdiv_eq_tdiv]
  by_cases hdvd : b ∣ a
  · simp [hdvd, Int.tmod_eq_zero_of_dvd hdvd]
  · have hne : a.tmod b ≠ 0 := fun h => hdvd (Int.dvd_of_tmod_eq_zero h)
    have hsign : (a.tmod b).sign = a.sign := by rw [Int.sign_tmod, if_neg hdvd]
    have hneg : a.tmod b < 0 ↔ a < 0 := by
      rw [← Int.sign_eq_neg_one_iff_neg, hsign, Int.sign_eq_neg_one_iff_neg]
    rcases lt_or_gt_of_ne hb with hb | hb
    · simp only [hdvd, hne, hneg, hb, Int.sign_eq_neg_one_of_neg hb, if_false, ne_eq,
        not_false_eq_true, true_and, decide_true, decide_eq_true_eq]
      omega
    · simp only [hdvd, hne, hneg, hb.not_gt, Int.sign_eq_one_of_pos hb, if_false, ne_eq,
        not_false_eq_true, true_and, decide_false, decide_eq_false_iff_not]
      omega

/-- A quotient that leaves a remainder is at most half as large as the dividend. -/
theorem two_mul_natAbs_tdiv_le {a b : ℤ} (h : a.tmod b ≠ 0) :
    2 * (a.tdiv b).natAbs ≤ a.natAbs := by
  have hdiv : (a.tdiv b).natAbs = a.natAbs / b.natAbs := Int.natAbs_tdiv a b
  have hb : b.natAbs ≠ 1 := by
    intro hone
    apply h
    rw [← Int.natAbs_eq_zero, Int.natAbs_tmod, hone, Nat.mod_one]
  rcases Nat.eq_zero_or_pos b.natAbs with hzero | hpos
  · simp [hdiv, hzero]
  · calc 2 * (a.tdiv b).natAbs ≤ b.natAbs * (a.natAbs / b.natAbs) := by
          rw [hdiv]
          exact Nat.mul_le_mul_right _ (by omega)
      _ ≤ a.natAbs := Nat.mul_div_le _ _

namespace Integer64

theorem inRange_tmod (a : Integer64) {b : Integer64} (hb : b.toInt ≠ 0) :
    InRange (a.toInt.tmod b.toInt) := by
  have hlower := b.lower
  have hupper := b.upper
  have hlt : (a.toInt.tmod b.toInt).natAbs < b.toInt.natAbs := by
    rw [Int.natAbs_tmod]
    exact Nat.mod_lt _ (Int.natAbs_pos.mpr hb)
  unfold InRange
  omega

theorem floorDiv?_eq {a b : Integer64} (hb : b.toInt ≠ 0) :
    a.floorDiv? b = ofInt? (a.toInt.fdiv b.toInt) := by
  obtain ⟨r, hr⟩ := exists_of_inRange (a.inRange_tmod hb)
  rw [floorDiv?, fdiv_eq_tdiv_or_pred hb, ← hr, ofInt?_toInt]
  by_cases hcorrect : r.toInt ≠ 0 ∧ decide (r.toInt < 0) ≠ decide (b.toInt < 0)
  · have hhalf := two_mul_natAbs_tdiv_le (hr ▸ hcorrect.1)
    have hlower := a.lower
    have hupper := a.upper
    obtain ⟨q, hq⟩ : ∃ q : Integer64, q.toInt = a.toInt.tdiv b.toInt :=
      exists_of_inRange (by unfold InRange; omega)
    have hprevious : q.previous.toInt = q.toInt - 1 := toInt_previous (by omega)
    rw [if_pos hcorrect, ← hq, ofInt?_toInt, ← hprevious, ofInt?_toInt]
    simp only [Option.bind_eq_bind, Option.bind_some, if_pos hcorrect, Option.pure_def]
  · rw [if_neg hcorrect]
    simp only [Option.bind_eq_bind, Option.bind_some, if_neg hcorrect, Option.pure_def,
      Option.bind_fun_some]

end Integer64

/-! ### Powers -/

theorem inRange_of_natAbs_lt {n : ℤ} (h : n.natAbs < 2 ^ 63) : InRange n := by
  unfold InRange
  omega

theorem natAbs_le_of_inRange {n : ℤ} (h : InRange n) : n.natAbs ≤ 2 ^ 63 := by
  unfold InRange at h
  omega

/-- A base other than -1, 0 and 1 leaves the range by its 64th power. -/
theorem not_inRange_pow {base : ℤ} {exponent : Nat} (hb : 2 ≤ base.natAbs) (he : 64 ≤ exponent) :
    ¬ InRange (base ^ exponent) := by
  have hpow : 2 ^ 64 ≤ (base ^ exponent).natAbs := by
    rw [Int.natAbs_pow]
    calc 2 ^ 64 ≤ 2 ^ exponent := Nat.pow_le_pow_right (by decide) he
      _ ≤ base.natAbs ^ exponent := Nat.pow_le_pow_left hb exponent
  unfold InRange
  omega

section

variable {factor base : ℤ} {exponent : ℕ}

/-- A product in range that has a further factor is well within the range. -/
theorem inRange_mul_base (hbase : 2 ≤ base.natAbs) (hexponent : 2 ≤ exponent)
    (h : InRange (factor * base ^ exponent)) : InRange (factor * base) := by
  obtain ⟨rest, rfl⟩ := Nat.exists_eq_add_of_le' hexponent
  have hsplit : (factor * base ^ (rest + 2)).natAbs =
      (factor * base).natAbs * base.natAbs ^ (rest + 1) := by
    rw [← Int.natAbs_pow, ← Int.natAbs_mul]
    ring_nf
  have hpow : 2 ≤ base.natAbs ^ (rest + 1) :=
    hbase.trans (Nat.le_self_pow (Nat.succ_ne_zero rest) _)
  have hle := natAbs_le_of_inRange h
  apply inRange_of_natAbs_lt
  have hdouble : (factor * base).natAbs * 2 ≤ 2 ^ 63 :=
    calc (factor * base).natAbs * 2 ≤ (factor * base).natAbs * base.natAbs ^ (rest + 1) :=
          Nat.mul_le_mul_left _ hpow
      _ ≤ 2 ^ 63 := hsplit ▸ hle
  omega

/-- The square of a base is in range if a product with its square in it is. The end of the range
below zero does not count: 3037000500, the least number whose square leaves the range, has its square
above 2⁶³ and not on it. -/
theorem inRange_square (hfactor : factor ≠ 0) (hbase : 2 ≤ base.natAbs) (hexponent : 2 ≤ exponent)
    (h : InRange (factor * base ^ exponent)) : InRange (base * base) := by
  have hdvd : base * base ∣ factor * base ^ exponent := by
    rw [← sq]
    exact Dvd.dvd.mul_left (pow_dvd_pow base hexponent) factor
  have hne : factor * base ^ exponent ≠ 0 := mul_ne_zero hfactor (pow_ne_zero _ (by omega))
  have hle : (base * base).natAbs ≤ 2 ^ 63 :=
    (Nat.le_of_dvd (Int.natAbs_pos.mpr hne) (Int.natAbs_dvd_natAbs.mpr hdvd)).trans
      (natAbs_le_of_inRange h)
  apply inRange_of_natAbs_lt
  rw [Int.natAbs_mul] at hle ⊢
  generalize base.natAbs = b at hle
  rcases Nat.lt_or_ge b 3037000500 with hlt | hge
  · have hsq := Nat.mul_le_mul (Nat.le_of_lt_succ hlt) (Nat.le_of_lt_succ hlt)
    omega
  · have hsq := Nat.mul_le_mul hge hge
    omega

end

namespace Integer64

variable {factor base : Integer64} {exponent : ℕ}

theorem mulPow?_of_two_le (h : 2 ≤ exponent) :
    mulPow? factor base exponent = (do
      let factor' ← ofInt? (factor.toInt * base.toInt ^ (exponent % 2))
      let base' ← ofInt? (base.toInt * base.toInt)
      mulPow? factor' base' (exponent / 2)) := by
  have hdigit : (if exponent % 2 = 1 then factor.mul? base else some factor) =
      ofInt? (factor.toInt * base.toInt ^ (exponent % 2)) := by
    rcases Nat.mod_two_eq_zero_or_one exponent with hzero | hone
    · rw [hzero, if_neg (by decide), pow_zero, mul_one, ofInt?_toInt]
    · rw [hone, if_pos rfl, pow_one, mul?]
  rw [mulPow?, if_neg (by omega), hdigit]
  rfl

theorem inRange_factor (hbase : 2 ≤ base.toInt.natAbs) (hexponent : 2 ≤ exponent)
    (h : InRange (factor.toInt * base.toInt ^ exponent)) :
    InRange (factor.toInt * base.toInt ^ (exponent % 2)) := by
  rcases Nat.mod_two_eq_zero_or_one exponent with hzero | hone
  · rw [hzero, pow_zero, mul_one]
    exact factor.inRange
  · rw [hone, pow_one]
    exact inRange_mul_base hbase hexponent h

/-- Squaring step by step gives the power. If some product on the way is out of range, then so is
the result. -/
theorem mulPow?_eq (hfactor : factor.toInt ≠ 0) (hbase : 2 ≤ base.toInt.natAbs)
    (hexponent : exponent ≠ 0) :
    mulPow? factor base exponent = ofInt? (factor.toInt * base.toInt ^ exponent) := by
  induction exponent using Nat.strong_induction_on generalizing factor base with
  | h exponent ih =>
    by_cases hle : exponent ≤ 1
    · obtain rfl : exponent = 1 := by omega
      rw [mulPow?, if_pos hle, mul?, pow_one]
    have htwo : 2 ≤ exponent := by omega
    have hsplit : factor.toInt * base.toInt ^ exponent =
        factor.toInt * base.toInt ^ (exponent % 2) *
          (base.toInt * base.toInt) ^ (exponent / 2) := by
      rw [← sq, ← pow_mul, mul_assoc, ← pow_add, Nat.mod_add_div]
    rw [mulPow?_of_two_le htwo]
    cases hfactor' : ofInt? (factor.toInt * base.toInt ^ (exponent % 2)) with
    | none =>
      have hout := ofInt?_eq_none_iff_not_inRange.mp hfactor'
      exact (ofInt?_eq_none_iff_not_inRange.mpr (mt (inRange_factor hbase htwo) hout)).symm
    | some factor' =>
      cases hbase' : ofInt? (base.toInt * base.toInt) with
      | none =>
        have hout := ofInt?_eq_none_iff_not_inRange.mp hbase'
        exact (ofInt?_eq_none_iff_not_inRange.mpr
          (mt (inRange_square hfactor hbase htwo) hout)).symm
      | some base' =>
        rw [ofInt?_eq_some_iff] at hfactor' hbase'
        have hne : factor'.toInt ≠ 0 := by
          rw [hfactor']
          exact mul_ne_zero hfactor (pow_ne_zero _ (by omega))
        have hlarge : 2 ≤ base'.toInt.natAbs := by
          rw [hbase', Int.natAbs_mul]
          exact hbase.trans (Nat.le_mul_self _)
        calc mulPow? factor' base' (exponent / 2)
            = ofInt? (factor'.toInt * base'.toInt ^ (exponent / 2)) :=
              ih (exponent / 2) (by omega) hne hlarge (by omega)
          _ = ofInt? (factor.toInt * base.toInt ^ exponent) := by rw [hfactor', hbase', hsplit]

/-- The shortcuts and the bound on the exponent change nothing. -/
theorem pow?_eq {base exponent : Integer64} (h : 0 ≤ exponent.toInt) :
    base.pow? exponent = ofInt? (base.toInt ^ exponent.toInt.toNat) := by
  have hzero : exponent.toInt = 0 ↔ exponent.toInt.toNat = 0 := by omega
  unfold pow?
  split_ifs with hb0 he0 hb1 hbneg heven he0 hsmall
  · rw [hzero.mp he0, pow_zero]
  · rw [hb0, zero_pow (mt hzero.mpr he0)]
  · rw [hb1, one_pow]
  · rw [hbneg, Even.neg_one_pow]
    rw [Nat.even_iff]
    omega
  · rw [hbneg, Odd.neg_one_pow]
    rw [Nat.odd_iff]
    omega
  · rw [hzero.mp he0, pow_zero]
  · rw [mulPow?_eq (by decide) (by omega) (mt hzero.mpr he0), one_mul]
  · exact (ofInt?_eq_none_iff_not_inRange.mpr (not_inRange_pow (by omega) (by omega))).symm

end Integer64

/-! ### Results as values -/

/-- Rounding down really takes the floor of the quotient, also for a negative divisor. -/
theorem floor_div_eq_fdiv (a b : ℤ) : ⌊(a : ℚ) / b⌋ = a.fdiv b := by
  have hnonneg (a : ℤ) (d : ℕ) : ⌊(a : ℚ) / (d : ℤ)⌋ = a.fdiv d := by
    rw [Int.fdiv_eq_ediv_of_nonneg a (Int.natCast_nonneg d), Int.cast_natCast,
      Rat.floor_intCast_div_natCast]
  obtain ⟨d, rfl | rfl⟩ := Int.eq_nat_or_neg b
  · exact hnonneg a d
  · rw [← Int.neg_fdiv_neg, neg_neg, ← hnonneg, Int.cast_neg, Int.cast_neg, div_neg, neg_div]

/-- The result of an operation in mathematics, for those that stay with the integers. -/
def ArithmeticOp.onIntegers? : ArithmeticOp → ℤ → ℤ → Option ℤ
  | .add, a, b => some (a + b)
  | .sub, a, b => some (a - b)
  | .mul, a, b => some (a * b)
  | .div, _, _ => none
  | .floorDiv, a, b => if b = 0 then none else some ⌊(a : ℚ) / b⌋
  | .pow, a, b => if 0 ≤ b then some (a ^ b.toNat) else none

theorem ArithmeticOp.onIntegers?_floorDiv (a : ℤ) {b : ℤ} (hb : b ≠ 0) :
    floorDiv.onIntegers? a b = some ⌊(a : ℚ) / b⌋ := if_neg hb

theorem ArithmeticOp.onIntegers?_pow (a : ℤ) {b : ℤ} (hb : 0 ≤ b) :
    pow.onIntegers? a b = some (a ^ b.toNat) := if_pos hb

namespace Value

theorem ofInt_of_not_inRange {n : ℤ} (h : ¬ InRange n) : ofInt n = .error .overflow := by
  simp only [ofInt, Integer64.ofInt?_eq_none_iff_not_inRange.mpr h, checked]

theorem ofInt_toInt (a : Integer64) : ofInt a.toInt = .ok (integer a) := by
  simp only [ofInt, Integer64.ofInt?_toInt, checked]

theorem arithmetic_boolean_left (op : ArithmeticOp) (b : Bool) (y : Value) :
    arithmetic op (boolean b) y = .error (.typeError (.arithmetic op .boolean y.kind)) := rfl

theorem arithmetic_boolean_right (op : ArithmeticOp) (x : Value) (b : Bool) :
    arithmetic op x (boolean b) = .error (.typeError (.arithmetic op x.kind .boolean)) := by
  cases x <;> rfl

theorem arithmetic_integers (op : ArithmeticOp) (a b : Integer64) :
    arithmetic op (integer a) (integer b) = onNumbers op (integer a) (integer b) := rfl

theorem floorDiv_integer_zero (a : Integer64) {b : Integer64} (hb : b.toInt = 0) :
    arithmetic .floorDiv (integer a) (integer b) = .error .divisionByZero := by
  rw [arithmetic_integers, onNumbers, if_pos hb]

/-- Operations that stay with the integers give the result in mathematics, up to its range. -/
theorem arithmetic_of_onIntegers? {op : ArithmeticOp} {a b : Integer64} {r : ℤ}
    (h : op.onIntegers? a.toInt b.toInt = some r) :
    arithmetic op (integer a) (integer b) = ofInt r := by
  rw [arithmetic_integers]
  cases op with
  | add | sub | mul =>
    cases h
    rfl
  | div => cases h
  | floorDiv =>
    obtain ⟨hb, hr⟩ := Option.ite_none_left_eq_some.mp h
    cases hr
    rw [onNumbers, if_neg hb, Integer64.floorDiv?_eq hb, floor_div_eq_fdiv, ofInt]
  | pow =>
    obtain ⟨hb, hr⟩ := Option.ite_none_right_eq_some.mp h
    cases hr
    rw [onNumbers, if_pos hb, Integer64.pow?_eq hb, ofInt]

end Value

/-- A result that is the integer `r` if that is in range, and an overflow just if it is not. -/
def IsExactly (r : ℤ) (x : EvalM Value) (line : ℕ) : Prop :=
  ∀ env, (InRange r → ∃ n : Integer64, n.toInt = r ∧ x.outcome env = (.ok (.integer n), env)) ∧
    (x.outcome env = (.error ⟨.overflow, line⟩, env) ↔ ¬ InRange r)

theorem isExactly_ofInt (r : ℤ) (line : ℕ) :
    IsExactly r (EvalM.onLine line (Value.ofInt r)) line := by
  intro env
  by_cases hr : InRange r
  · obtain ⟨n, rfl⟩ := exists_of_inRange hr
    rw [Value.ofInt_toInt]
    exact ⟨fun _ => ⟨n, rfl, rfl⟩, iff_of_false (by rintro ⟨⟩) (not_not_intro hr)⟩
  · rw [Value.ofInt_of_not_inRange hr]
    exact ⟨fun h => absurd h hr, iff_of_true rfl hr⟩

theorem not_inRange_neg_iff (a : Integer64) : ¬ InRange (-a.toInt) ↔ a.toInt = -2 ^ 63 := by
  have hlower := a.lower
  have hupper := a.upper
  unfold InRange
  omega

/-- Arithmetic on integers is exact or overflows. -/
theorem integer_arithmetic_is_exact (a b : Integer64) (line : ℕ) (env : Environment) :
    (∀ op r, op.onIntegers? a.toInt b.toInt = some r →
      IsExactly r (EvalM.onLine line (Value.arithmetic op (.integer a) (.integer b))) line) ∧
    (b.toInt = 0 →
      (EvalM.onLine line (Value.arithmetic .floorDiv (.integer a) (.integer b))).outcome env =
        (.error ⟨.divisionByZero, line⟩, env)) ∧
    IsExactly (-a.toInt) (EvalM.onLine line (Value.unary .negate (.integer a))) line ∧
    ((EvalM.onLine line (Value.unary .negate (.integer a))).outcome env =
      (.error ⟨.overflow, line⟩, env) ↔ a.toInt = -2 ^ 63) := by
  have hnegate := isExactly_ofInt (-a.toInt) line
  refine ⟨?_, ?_, hnegate, (hnegate env).2.trans (not_inRange_neg_iff a)⟩
  · intro op r h
    rw [Value.arithmetic_of_onIntegers? h]
    exact isExactly_ofInt r line
  · intro hb
    rw [Value.floorDiv_integer_zero a hb]
    rfl

/-- A power can end at the least integer, which no quotient by -1 can leave. -/
theorem power_reaches_least_integer :
    (∃ least : Integer64, least.toInt = -2 ^ 63 ∧
      (EvalM.onLine 1 (Value.arithmetic .pow (.integer ⟨-2, by decide, by decide⟩)
        (.integer ⟨63, by decide, by decide⟩))).outcome ∅ = (.ok (.integer least), ∅) ∧
      (EvalM.onLine 2 (Value.arithmetic .floorDiv (.integer least)
        (.integer ⟨-1, by decide, by decide⟩))).outcome ∅ = (.error ⟨.overflow, 2⟩, ∅) ∧
      (EvalM.onLine 3 (Value.arithmetic .floorDiv (.integer least)
        (.integer ⟨0, by decide, by decide⟩))).outcome ∅ = (.error ⟨.divisionByZero, 3⟩, ∅)) := by
  have hpow := (integer_arithmetic_is_exact ⟨-2, by decide, by decide⟩ ⟨63, by decide, by decide⟩
    1 ∅).1 .pow (-2 ^ 63) (by decide)
  obtain ⟨least, hleast, hok⟩ := (hpow ∅).1 (by unfold InRange; omega)
  have hdiv := (integer_arithmetic_is_exact least ⟨-1, by decide, by decide⟩ 2 ∅).1 .floorDiv
    (2 ^ 63) (by norm_num [ArithmeticOp.onIntegers?, hleast])
  exact ⟨least, hleast, hok, (hdiv ∅).2.mpr (by unfold InRange; omega),
    (integer_arithmetic_is_exact least ⟨0, by decide, by decide⟩ 3 ∅).2.1 rfl⟩

end BoundedScript
