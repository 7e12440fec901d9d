import BoundedScript.Proofs.Value.Integers
import BoundedScript.Proofs.Value.Order

/-!
# Arithmetic on reals that are integers

Every integer of up to 53 digits is a real. As long as operands and result are such integers,
nothing is rounded and arithmetic on reals gives what arithmetic on integers gives. For floor
division that takes an argument, since reals go another way: they subtract the remainder, divide the
exact multiple that is left, and round down at the end.
-/

namespace BoundedScript

namespace Binary64

/-- The number has the value of an integer. Both zeros have that of zero. -/
def IsInteger (x : Binary64) (n : ℤ) : Prop := x.quantity = .ofInt n

theorem natAbs_signedUnits (negative : Bool) (units : ℕ) :
    (signedUnits negative units).natAbs = units := by
  cases negative
  · rw [signedUnits_false, Int.natAbs_natCast]
  · rw [signedUnits_true, Int.natAbs_neg, Int.natAbs_natCast]

theorem mul_unitsPerOne_ne_zero {negative : Bool} {m : ℕ} (h : signedUnits negative m ≠ 0) :
    m * unitsPerOne ≠ 0 := by
  apply mul_ne_zero _ unitsPerOne_pos.ne'
  rwa [← natAbs_signedUnits negative m, Int.natAbs_ne_zero]

theorem signedUnits_xor (s t : Bool) (m n : ℕ) :
    signedUnits (s ^^ t) (m * n) = signedUnits s m * signedUnits t n := by
  cases s <;> cases t <;> simp [signedUnits]

/-- The remainder has the sign of the dividend. -/
theorem signedUnits_mod (s t : Bool) (m n : ℕ) :
    signedUnits s (m % n) = (signedUnits s m).tmod (signedUnits t n) := by
  cases s <;> cases t <;> simp [signedUnits, Int.tmod_neg, Int.neg_tmod, Int.tmod_eq_emod_of_nonneg]

/-- Either sign will do for a count of zero. -/
theorem signedUnits_natAbs_of_ne {negative : Bool} {n : ℤ} (h : n ≠ 0 → negative = decide (n < 0)) :
    signedUnits negative n.natAbs = n := by
  by_cases hzero : n = 0
  · subst hzero
    cases negative <;> rfl
  · rw [h hzero, signedUnits_natAbs]

theorem isInteger_ofRatio (negative : Bool) {m den : ℕ} (hm : m ≤ digitLimit) (hden : 0 < den) :
    (ofRatio negative (m * unitsPerOne * den) den).IsInteger (signedUnits negative m) := by
  rw [IsInteger, ofRatio_mul negative (representable_mul_unitsPerOne hm) hden, quantity,
    signedUnits_mul, Quantity.ofInt]

theorem isInteger_ofUnits (negative : Bool) {m : ℕ} (hm : m ≤ digitLimit) :
    (ofUnits negative (m * unitsPerOne)).IsInteger (signedUnits negative m) := by
  rw [IsInteger, ofUnits_of_representable negative (representable_mul_unitsPerOne hm), quantity,
    signedUnits_mul, Quantity.ofInt]

theorem isInteger_ofInt {n : ℤ} (h : n.natAbs ≤ digitLimit) : (ofInt n).IsInteger n :=
  quantity_ofInt (representable_mul_unitsPerOne h)

theorem isInteger_zero (negative : Bool) : (zero negative).IsInteger 0 := by
  cases negative <;> rfl

namespace IsInteger

variable {x y : Binary64} {a b : ℤ}

/-! ### Exact operations -/

theorem exists_finite (h : x.IsInteger a) :
    ∃ negative m, ∃ hm : Representable (m * unitsPerOne),
      x = .finite negative (m * unitsPerOne) hm ∧ signedUnits negative m = a := by
  cases x with
  | nan => cases h
  | infinite negative => cases h
  | finite negative units hunits =>
    have hcount : signedUnits negative units = a * unitsPerOne := Quantity.units.inj h
    obtain rfl : units = a.natAbs * unitsPerOne := by
      rw [← natAbs_signedUnits negative units, hcount, Int.natAbs_mul, Int.natAbs_natCast]
    refine ⟨negative, a.natAbs, hunits, rfl, ?_⟩
    rw [signedUnits_mul] at hcount
    exact Int.eq_of_mul_eq_mul_right (Int.natCast_ne_zero.mpr unitsPerOne_pos.ne') hcount

theorem neg (h : x.IsInteger a) : (-x).IsInteger (-a) := quantity_neg h

/-- A sum of zero may have either sign. -/
theorem add (hx : x.IsInteger a) (hy : y.IsInteger b) (h : (a + b).natAbs ≤ digitLimit) :
    (x + y).IsInteger (a + b) := by
  obtain ⟨s, m, hm, rfl, rfl⟩ := hx.exists_finite
  obtain ⟨t, n, hn, rfl, rfl⟩ := hy.exists_finite
  have hpos : (0 : ℤ) < unitsPerOne := Int.natCast_pos.mpr unitsPerOne_pos
  have hunits : signedUnits s (m * unitsPerOne) + signedUnits t (n * unitsPerOne) =
      (signedUnits s m + signedUnits t n) * unitsPerOne := by
    rw [signedUnits_mul, signedUnits_mul, Int.add_mul]
  change (ofUnits (if signedUnits s (m * unitsPerOne) + signedUnits t (n * unitsPerOne) = 0 then s && t
      else decide (signedUnits s (m * unitsPerOne) + signedUnits t (n * unitsPerOne) < 0))
    (signedUnits s (m * unitsPerOne) + signedUnits t (n * unitsPerOne)).natAbs).IsInteger _
  rw [hunits, Int.natAbs_mul, Int.natAbs_natCast]
  generalize signedUnits s m + signedUnits t n = sum at h
  have hsum := isInteger_ofUnits (if sum * unitsPerOne = 0 then s && t
    else decide (sum * unitsPerOne < 0)) h
  rwa [signedUnits_natAbs_of_ne] at hsum
  intro hne
  rw [if_neg (mul_ne_zero hne hpos.ne')]
  exact decide_eq_decide.mpr (lt_iff_lt_of_le_iff_le (mul_nonneg_iff_of_pos_right hpos))

theorem sub (hx : x.IsInteger a) (hy : y.IsInteger b) (h : (a - b).natAbs ≤ digitLimit) :
    (x - y).IsInteger (a - b) := by
  rw [Int.sub_eq_add_neg] at h ⊢
  exact hx.add hy.neg h

theorem mul (hx : x.IsInteger a) (hy : y.IsInteger b) (h : (a * b).natAbs ≤ digitLimit) :
    (x * y).IsInteger (a * b) := by
  obtain ⟨s, m, hm, rfl, rfl⟩ := hx.exists_finite
  obtain ⟨t, n, hn, rfl, rfl⟩ := hy.exists_finite
  rw [← signedUnits_xor, natAbs_signedUnits] at h
  change (ofRatio (s ^^ t) (m * unitsPerOne * (n * unitsPerOne)) unitsPerOne).IsInteger _
  have hunits : m * unitsPerOne * (n * unitsPerOne) = m * n * unitsPerOne * unitsPerOne := by
    ring
  rw [hunits, ← signedUnits_xor]
  exact isInteger_ofRatio (s ^^ t) h unitsPerOne_pos

theorem rem (hx : x.IsInteger a) (hy : y.IsInteger b) (hb : b ≠ 0) (ha : a.natAbs ≤ digitLimit) :
    (x % y).IsInteger (a.tmod b) := by
  obtain ⟨s, m, hm, rfl, rfl⟩ := hx.exists_finite
  obtain ⟨t, n, hn, rfl, rfl⟩ := hy.exists_finite
  rw [natAbs_signedUnits] at ha
  have hne := mul_unitsPerOne_ne_zero hb
  change (if n * unitsPerOne = 0 then nan
    else ofUnits s (m * unitsPerOne % (n * unitsPerOne))).IsInteger _
  rw [if_neg hne, Nat.mul_mod_mul_right, ← signedUnits_mod]
  exact isInteger_ofUnits s ((Nat.mod_le m n).trans ha)

/-- Dividing a multiple is exact. -/
theorem div (hx : x.IsInteger (a * b)) (hy : y.IsInteger b) (hb : b ≠ 0)
    (ha : a.natAbs ≤ digitLimit) : (x / y).IsInteger a := by
  obtain ⟨s, m, hm, rfl, hmultiple⟩ := hx.exists_finite
  obtain ⟨t, n, hn, rfl, rfl⟩ := hy.exists_finite
  have hne := mul_unitsPerOne_ne_zero hb
  obtain rfl : m = a.natAbs * n := by
    rw [← natAbs_signedUnits s m, hmultiple, Int.natAbs_mul, natAbs_signedUnits]
  have hunits : a.natAbs * n * unitsPerOne * unitsPerOne =
      a.natAbs * unitsPerOne * (n * unitsPerOne) := by
    ring
  have hsign : signedUnits (s ^^ t) a.natAbs = a := by
    apply Int.eq_of_mul_eq_mul_right hb
    rw [← signedUnits_xor, Bool.xor_assoc, Bool.xor_self, Bool.xor_false, hmultiple]
  change (if n * unitsPerOne = 0 then
      if a.natAbs * n * unitsPerOne = 0 then nan else infinite (s ^^ t)
    else ofRatio (s ^^ t) (a.natAbs * n * unitsPerOne * unitsPerOne) (n * unitsPerOne)).IsInteger _
  rw [if_neg hne, hunits]
  have hquotient := isInteger_ofRatio (s ^^ t) ha (Nat.pos_of_ne_zero hne)
  rwa [hsign] at hquotient

theorem floor (hx : x.IsInteger a) : x.floor.IsInteger a := by
  obtain ⟨s, m, hm, rfl, rfl⟩ := hx.exists_finite
  rw [IsInteger, quantity_floor, signedUnits_mul,
    Int.mul_ediv_cancel _ (Int.natCast_ne_zero.mpr unitsPerOne_pos.ne')]

theorem compare?_eq (hx : x.IsInteger a) (hy : y.IsInteger b) :
    x.compare? y = some (compare a b) := by
  rw [compare?, hx, hy, quantity_compare?_ofInt]

theorem isZero_eq (hx : x.IsInteger a) : x.isZero = decide (a = 0) := by
  obtain ⟨s, m, hm, rfl, rfl⟩ := hx.exists_finite
  rw [← Bool.coe_iff_coe, decide_eq_true_iff, ← Int.natAbs_eq_zero, natAbs_signedUnits]
  simp [isZero, unitsPerOne_pos.ne']

theorem isNegative_eq (hx : x.IsInteger a) : x.isNegative = decide (a < 0) := by
  rw [isNegative, hx.compare?_eq (isInteger_zero false), ← Bool.coe_iff_coe]
  simp [compare_lt_iff_lt]

theorem sameValue_zero_eq (hx : x.IsInteger a) : x.sameValue (zero false) = decide (a = 0) := by
  rw [sameValue, hx.compare?_eq (isInteger_zero false), ← Bool.coe_iff_coe]
  simp

/-! ### Floor division -/

/-- The last steps of a floor division keep a quotient that is an integer already. -/
theorem rounded_down (hx : x.IsInteger a) (negative : Bool) :
    (if x.isZero then zero negative
      else if (x - x.floor).compare? floorDiv.half == some .gt then x.floor + ofInt 1
      else x.floor).IsInteger a := by
  rw [hx.isZero_eq]
  by_cases hzero : a = 0
  · rw [if_pos (decide_eq_true hzero), hzero]
    exact isInteger_zero negative
  · have hrest : (x - x.floor).quantity = .ofInt 0 := by
      have hsub := hx.sub hx.floor (by omega)
      rwa [Int.sub_self] at hsub
    have hhalf : (x - x.floor).compare? floorDiv.half = some .lt := by
      rw [compare?, hrest]
      decide +kernel
    rw [if_neg (by simpa using hzero), hhalf, if_neg (by decide)]
    exact hx.floor

/-- What is left without the remainder is a multiple of the divisor, so dividing it needs no rounding.
-/
theorem floorDiv (hx : x.IsInteger a) (hy : y.IsInteger b) (hb : b ≠ 0)
    (ha : a.natAbs ≤ digitLimit) (h : (a.fdiv b).natAbs ≤ digitLimit) :
    (x.floorDiv y).IsInteger (a.fdiv b) := by
  have hr : (x % y).IsInteger (a.tmod b) := hx.rem hy hb ha
  have hmultiple : a - a.tmod b = a.tdiv b * b := by
    have := Int.tdiv_mul_add_tmod a b
    omega
  have htdiv : (a.tdiv b).natAbs ≤ digitLimit := (Int.natAbs_tdiv_le_natAbs a b).trans ha
  have hle : (a.tdiv b * b).natAbs ≤ digitLimit := by
    rw [Int.natAbs_mul, Int.natAbs_tdiv]
    exact (Nat.div_mul_le_self _ _).trans ha
  have hexact : (x - x % y).IsInteger (a.tdiv b * b) := hmultiple ▸ hx.sub hr (hmultiple ▸ hle)
  have hquotient : ((x - x % y) / y).IsInteger (a.tdiv b) := hexact.div hy hb htdiv
  have hcondition : (!(x % y).sameValue (zero false) && y.isNegative != (x % y).isNegative) = true ↔
      a.tmod b ≠ 0 ∧ decide (a.tmod b < 0) ≠ decide (b < 0) := by
    rw [hr.sameValue_zero_eq, hr.isNegative_eq, hy.isNegative_eq, Bool.and_eq_true_iff, bne_iff_ne,
      ne_comm, Bool.not_eq_true', decide_eq_false_iff_not]
  have hcorrected : (if !(x % y).sameValue (zero false) && y.isNegative != (x % y).isNegative then
      (x - x % y) / y - ofInt 1 else (x - x % y) / y).IsInteger (a.fdiv b) := by
    rw [fdiv_eq_tdiv_or_pred hb] at h ⊢
    simp only [hcondition]
    split_ifs at h ⊢
    · exact hquotient.sub (isInteger_ofInt (by decide)) h
    · exact hquotient
  exact hcorrected.rounded_down _

end IsInteger

theorem natAbs_le_digitLimit {n : ℤ} (h : |n| ≤ 2 ^ 53) : n.natAbs ≤ digitLimit := by
  have hlimit : digitLimit = 2 ^ 53 := Nat.one_shiftLeft 53
  have hbounds := abs_le.mp h
  omega

end Binary64

/-! ### Values -/

namespace Value

open Binary64 (Quantity digitLimit natAbs_le_digitLimit isInteger_ofInt)

theorem integerOrder?_eq_some_eq_iff (n : Integer64) (x : Binary64) :
    integerOrder? n x = some .eq ↔ x.IsInteger n.toInt := by
  rw [integerOrder?_eq, Binary64.IsInteger]
  cases x.quantity with
  | nan => exact iff_of_false (by rintro ⟨⟩) (by rintro ⟨⟩)
  | infinite negative => exact iff_of_false (by cases negative <;> rintro ⟨⟩) (by rintro ⟨⟩)
  | units count =>
    rw [Quantity.ofInt, Quantity.compare?, Option.some_inj, compare_eq_iff_eq, Quantity.units.injEq,
      eq_comm]

theorem equals_real_integer_iff (x : Binary64) (n : Integer64) :
    (real x).equals (integer n) = true ↔ x.IsInteger n.toInt :=
  beq_iff_eq.trans (integerOrder?_eq_some_eq_iff n x)

section

variable {u v : Value} {x y : Binary64}

theorem eq_integer_or_real_of_equals {n : Integer64} (h : u.equals (integer n) = true) :
    u = integer n ∨ ∃ x, u = real x ∧ x.IsInteger n.toInt := by
  cases u with
  | integer m => exact .inl (congrArg integer (eq_of_beq h))
  | real x => exact .inr ⟨x, rfl, (equals_real_integer_iff x n).mp h⟩
  | boolean c => cases h

/-- What is equal to an integer of up to 53 digits is that integer as a real, too. -/
theorem exists_toReal_of_equals {n : Integer64} (h : u.equals (integer n) = true)
    (hn : n.toInt.natAbs ≤ digitLimit) : ∃ x, u.toReal = .ok x ∧ x.IsInteger n.toInt := by
  rcases eq_integer_or_real_of_equals h with rfl | ⟨x, rfl, hx⟩
  · exact ⟨.ofInt n.toInt, rfl, isInteger_ofInt hn⟩
  · exact ⟨x, rfl, hx⟩

theorem arithmetic_of_toReal (op : ArithmeticOp) (hx : u.toReal = .ok x) (hy : v.toReal = .ok y)
    (hreal : u.kind = .real ∨ v.kind = .real) : arithmetic op u v = onReals op x y := by
  have hreals : arithmetic op u v = (do onReals op (← u.toReal) (← v.toReal)) := by
    cases u with
    | boolean c => cases hx
    | integer a =>
      cases v with
      | boolean c => cases hy
      | integer b => rcases hreal with h | h <;> cases h
      | real y => cases op <;> rfl
    | real x =>
      cases v with
      | boolean c => cases hy
      | integer b => cases op <;> rfl
      | real y => cases op <;> rfl
  rw [hreals, hx, hy]
  rfl

end

/-- Reals that are integers give the result in mathematics, if it has up to 53 digits as well. -/
theorem onReals_of_onIntegers? {op : ArithmeticOp} {x y : Binary64} {a b r : ℤ}
    (hx : x.IsInteger a) (hy : y.IsInteger b) (ha : a.natAbs ≤ digitLimit)
    (hr : r.natAbs ≤ digitLimit) (hop : op ≠ .pow) (h : op.onIntegers? a b = some r) :
    ∃ z, onReals op x y = .ok (real z) ∧ z.IsInteger r := by
  cases op with
  | add =>
    cases h
    exact ⟨x + y, rfl, hx.add hy hr⟩
  | sub =>
    cases h
    exact ⟨x - y, rfl, hx.sub hy hr⟩
  | mul =>
    cases h
    exact ⟨x * y, rfl, hx.mul hy hr⟩
  | div => cases h
  | floorDiv =>
    obtain ⟨hb, hfloor⟩ := Option.ite_none_left_eq_some.mp h
    cases hfloor
    rw [floor_div_eq_fdiv] at hr ⊢
    refine ⟨x.floorDiv y, ?_, hx.floorDiv hy hb ha hr⟩
    rw [onReals, hy.isZero_eq, if_neg (by simpa using hb)]
  | pow => exact absurd rfl hop

theorem floorDiv_zero {u v : Value} {a b : Integer64} (hu : u.equals (integer a) = true)
    (hv : v.equals (integer b) = true) (ha : a.toInt.natAbs ≤ digitLimit) (hb : b.toInt = 0) :
    arithmetic .floorDiv u v = .error .divisionByZero := by
  obtain ⟨x, hx, -⟩ := exists_toReal_of_equals hu ha
  obtain ⟨y, hy, hzero⟩ := exists_toReal_of_equals hv (by rw [hb]; exact Nat.zero_le _)
  by_cases hreal : u.kind = .real ∨ v.kind = .real
  · rw [arithmetic_of_toReal .floorDiv hx hy hreal, onReals, hzero.isZero_eq,
      if_pos (decide_eq_true hb)]
  · rcases eq_integer_or_real_of_equals hu with rfl | ⟨x, rfl, -⟩
    · rcases eq_integer_or_real_of_equals hv with rfl | ⟨y, rfl, -⟩
      · exact floorDiv_integer_zero a hb
      · exact absurd (.inr rfl) hreal
    · exact absurd (.inl rfl) hreal

/-- Where operands and result have up to 53 digits, reals are as good as integers. -/
theorem real_arithmetic_agrees_on_integers {u v : Value} {a b : Integer64}
    (hu : u.equals (integer a) = true) (hv : v.equals (integer b) = true)
    (ha : |a.toInt| ≤ 2 ^ 53) (hb : |b.toInt| ≤ 2 ^ 53) :
    (u.kind = .real ∨ v.kind = .real → ∀ op r, op ≠ .pow →
      op.onIntegers? a.toInt b.toInt = some r → |r| ≤ 2 ^ 53 →
      ∃ x n, arithmetic op u v = .ok (real x) ∧
        arithmetic op (integer a) (integer b) = .ok (integer n) ∧ n.toInt = r ∧
        (real x).equals (integer n) = true) ∧
    (b.toInt = 0 → arithmetic .floorDiv u v = .error .divisionByZero) := by
  have ha' := natAbs_le_digitLimit ha
  refine ⟨?_, floorDiv_zero hu hv ha'⟩
  intro hreal op r hop h hr
  obtain ⟨x, hx, hxa⟩ := exists_toReal_of_equals hu ha'
  obtain ⟨y, hy, hyb⟩ := exists_toReal_of_equals hv (natAbs_le_digitLimit hb)
  obtain ⟨z, hz, hzr⟩ :=
    onReals_of_onIntegers? hxa hyb ha' (natAbs_le_digitLimit hr) hop h
  obtain ⟨n, rfl⟩ : ∃ n : Integer64, n.toInt = r := by
    have hbounds := abs_le.mp hr
    exact exists_of_inRange (by unfold InRange; omega)
  refine ⟨z, n, ?_, ?_, rfl, (equals_real_integer_iff z n).mpr hzr⟩
  · rw [arithmetic_of_toReal op hx hy hreal, hz]
  · rw [arithmetic_of_onIntegers? h, ofInt_toInt]

/-- A real quotient is rounded down like that of integers, and no zero divides. -/
theorem real_quotient_is_rounded_down :
    (∃ x n, arithmetic .floorDiv (real (.ofInt (-7))) (integer ⟨2, by decide, by decide⟩) =
        .ok (real x) ∧
      arithmetic .floorDiv (integer ⟨-7, by decide, by decide⟩)
        (integer ⟨2, by decide, by decide⟩) = .ok (integer n) ∧
      n.toInt = -4 ∧ (real x).equals (integer n) = true) ∧
    arithmetic .floorDiv (real (.ofInt (-7))) (real (.zero true)) = .error .divisionByZero := by
  have hseven : (real (.ofInt (-7))).equals (integer ⟨-7, by decide, by decide⟩) = true := by
    decide +kernel
  have htwo : (integer ⟨2, by decide, by decide⟩).equals
      (integer ⟨2, by decide, by decide⟩) = true := by
    decide
  have hzero : (real (.zero true)).equals (integer ⟨0, by decide, by decide⟩) = true := by
    decide +kernel
  have hquotient := (real_arithmetic_agrees_on_integers hseven htwo (by decide) (by decide)).1
    (.inl rfl) .floorDiv (-4) (by decide) (by norm_num [ArithmeticOp.onIntegers?]) (by decide)
  exact ⟨hquotient,
    (real_arithmetic_agrees_on_integers hseven hzero (by decide) (by decide)).2 rfl⟩

end Value

end BoundedScript
