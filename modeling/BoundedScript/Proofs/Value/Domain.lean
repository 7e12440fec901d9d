import BoundedScript.Proofs.Value.RealArithmetic

/-!
# The domain of arithmetic on reals

An operation that does not stay with integers either has a real as its result or fails for one of
three reasons: an operand is a boolean, the divisor is zero, or a power is not defined. The reasons
are stated for the exact values of the operands, while an integer operand is tested only after it
was rounded to a real. Rounding keeps the sign of an integer and does not give it a fraction, so no
test comes out otherwise for it.
-/

namespace BoundedScript

namespace Binary64

/-! ### Rounding integers -/

theorem roundUnits_one (units : ℕ) :
    roundUnits units 1 = roundDiv units (1 <<< gap units) <<< gap units := by
  rw [roundUnits, quotientGap, Nat.div_one]

theorem one_shiftLeft_gap_le {units : ℕ} (h : units ≠ 0) : 1 <<< gap units ≤ units := by
  rw [Nat.one_shiftLeft]
  calc 2 ^ gap units ≤ 2 ^ units.log2 := Nat.pow_le_pow_right two_pos (Nat.sub_le _ _)
    _ ≤ units := Nat.log2_self_le h

theorem roundUnits_one_pos {units : ℕ} (h : units ≠ 0) : 0 < roundUnits units 1 := by
  have hquotient : 0 < units / 1 <<< gap units :=
    Nat.div_pos (one_shiftLeft_gap_le h) (one_shiftLeft_pos _)
  rw [roundUnits_one, Nat.shiftLeft_eq]
  exact Nat.mul_pos (hquotient.trans_le (div_le_roundDiv _ _)) (Nat.two_pow_pos _)

/-- A rounded integer is an integer: one with more than 53 digits before the point has no room for
any after it. -/
theorem unitsPerOne_dvd_roundUnits (m : ℕ) : unitsPerOne ∣ roundUnits (m * unitsPerOne) 1 := by
  by_cases hm : m ≤ digitLimit
  · have hexact := roundUnits_mul (representable_mul_unitsPerOne hm) one_pos
    rw [Nat.mul_one] at hexact
    rw [hexact]
    exact Nat.dvd_mul_left _ _
  · have hgap : 1074 ≤ gap (m * unitsPerOne) := by
      by_contra hlt
      have hunits := lt_of_gap_lt (Nat.lt_of_not_le hlt)
      exact hm (Nat.lt_of_mul_lt_mul_right hunits).le
    rw [roundUnits_one]
    exact one_shiftLeft_dvd hgap _

theorem roundUnits_lt_unitBound {m : ℕ} (h : m < 2 ^ 64) :
    roundUnits (m * unitsPerOne) 1 < unitBound := by
  have hunits : m * unitsPerOne < digitLimit <<< 1085 :=
    calc m * unitsPerOne < 2 ^ 64 * unitsPerOne := Nat.mul_lt_mul_of_pos_right h unitsPerOne_pos
      _ = digitLimit <<< 1085 := by decide +kernel
  have hgap := gap_le hunits
  have hdigits := roundDiv_quotientGap_le (m * unitsPerOne) 1
  rw [quotientGap, Nat.div_one] at hdigits
  rw [roundUnits_one]
  exact shiftLeft_lt_unitBound hdigits (by simp only [digitBound]; omega)

/-- The real nearest to an integer is an integer of the same sign. -/
theorem exists_isInteger_ofInt (n : Integer64) :
    ∃ m : ℤ, (ofInt n.toInt).IsInteger m ∧ (m = 0 ↔ n.toInt = 0) ∧ (m < 0 ↔ n.toInt < 0) := by
  by_cases hzero : n.toInt = 0
  · rw [hzero]
    exact ⟨0, isInteger_ofInt (by decide), Iff.rfl, Iff.rfl⟩
  · obtain ⟨k, hk⟩ := unitsPerOne_dvd_roundUnits n.toInt.natAbs
    have hpos : 0 < unitsPerOne * k :=
      hk ▸ roundUnits_one_pos (mul_ne_zero (Int.natAbs_ne_zero.mpr hzero) unitsPerOne_pos.ne')
    have hkpos : 0 < k := Nat.pos_of_mul_pos_left hpos
    have hbound : roundUnits (n.toInt.natAbs * unitsPerOne) 1 < unitBound := by
      apply roundUnits_lt_unitBound
      have hlower := n.lower
      have hupper := n.upper
      omega
    refine ⟨signedUnits (decide (n.toInt < 0)) k, ?_, ?_⟩
    · rw [IsInteger, ofInt, ofUnits, ofRatio, dif_pos hbound, quantity, hk, Nat.mul_comm,
        signedUnits_mul, Quantity.ofInt]
    · by_cases hneg : n.toInt < 0
      · rw [decide_eq_true hneg, signedUnits_true]
        omega
      · rw [decide_eq_false hneg, signedUnits_false]
        omega

/-! ### Tests on reals -/

theorem units_eq_intCast_iff (count n : ℤ) :
    (count / unitsPerOne : ℚ) = n ↔ count = n * unitsPerOne := by
  rw [div_eq_iff (Nat.cast_ne_zero.mpr unitsPerOne_pos.ne')]
  exact_mod_cast Iff.rfl

/-- Only a finite number has a rational value. -/
theorem exactValue?_eq_coe_iff {x : Binary64} {q : ℚ} :
    x.exactValue? = some (q : ExtendedRational) ↔
      ∃ negative units h, x = .finite negative units h ∧
        (signedUnits negative units / unitsPerOne : ℚ) = q := by
  cases x with
  | nan =>
    constructor
    · intro h
      cases h
    · rintro ⟨_, _, _, ⟨⟩, -⟩
  | infinite negative =>
    constructor
    · intro h
      cases negative
      · exact absurd (Option.some.inj h).symm (WithBotTop.coe_ne_top q)
      · exact absurd (Option.some.inj h).symm (WithBotTop.coe_ne_bot q)
    · rintro ⟨_, _, _, ⟨⟩, -⟩
  | finite negative units hunits =>
    constructor
    · intro h
      exact ⟨negative, units, hunits, rfl, WithBotTop.coe_injective (Option.some.inj h)⟩
    · rintro ⟨_, _, _, ⟨⟩, rfl⟩
      rfl

theorem isZero_iff {x : Binary64} :
    x.isZero = true ↔ x.exactValue? = some ((0 : ℚ) : ExtendedRational) := by
  rw [exactValue?_eq_coe_iff]
  constructor
  · intro h
    cases x with
    | nan | infinite => cases h
    | finite negative units hunits =>
      obtain rfl : units = 0 := eq_of_beq h
      refine ⟨negative, 0, hunits, rfl, ?_⟩
      cases negative <;> simp [signedUnits]
  · rintro ⟨negative, units, hunits, rfl, hzero⟩
    rw [← Int.cast_zero, units_eq_intCast_iff, Int.zero_mul] at hzero
    have hcount := natAbs_signedUnits negative units
    rw [hzero] at hcount
    exact beq_iff_eq.mpr hcount.symm

theorem isNegative_iff {x : Binary64} :
    x.isNegative = true ↔ ∃ a, x.exactValue? = some a ∧ a < ((0 : ℚ) : ExtendedRational) := by
  have hzero : (zero false).quantity.exactValue? = some ((0 : ℚ) : ExtendedRational) := by
    have hquantity : (zero false).quantity = .ofInt 0 := isInteger_zero false
    rw [hquantity, Quantity.exactValue?_ofInt, Int.cast_zero]
  rw [isNegative, compare?, Quantity.compare?_eq, hzero, beq_iff_eq, Option.map₂_eq_some_iff]
  constructor
  · rintro ⟨a, b, ha, hb, hlt⟩
    cases hb
    exact ⟨a, ha, compare_lt_iff_lt.mp hlt⟩
  · rintro ⟨a, ha, hlt⟩
    exact ⟨a, _, ha, rfl, compare_lt_iff_lt.mpr hlt⟩

theorem hasFraction_iff {x : Binary64} :
    x.hasFraction = true ↔
      ∃ q : ℚ, x.exactValue? = some (q : ExtendedRational) ∧ ∀ n : ℤ, q ≠ n := by
  simp only [exactValue?_eq_coe_iff]
  constructor
  · intro h
    cases x with
    | nan | infinite => cases h
    | finite negative units hunits =>
      refine ⟨_, ⟨negative, units, hunits, rfl, rfl⟩, ?_⟩
      intro n hn
      rw [units_eq_intCast_iff] at hn
      have hcount := natAbs_signedUnits negative units
      rw [hn, Int.natAbs_mul, Int.natAbs_natCast] at hcount
      simp [hasFraction, ← hcount] at h
  · rintro ⟨q, ⟨negative, units, hunits, rfl, rfl⟩, hfraction⟩
    by_contra hwhole
    have hmod : units % unitsPerOne = 0 := by simpa [hasFraction] using hwhole
    obtain ⟨m, rfl⟩ := Nat.dvd_of_mod_eq_zero hmod
    apply hfraction (signedUnits negative m)
    rw [units_eq_intCast_iff, Nat.mul_comm, signedUnits_mul]

theorem IsInteger.hasFraction_eq {x : Binary64} {a : ℤ} (h : x.IsInteger a) :
    x.hasFraction = false := by
  obtain ⟨s, m, hm, rfl, -⟩ := h.exists_finite
  simp [hasFraction]

end Binary64

/-! ### Operands -/

namespace Value

open Binary64 (ExtendedRational exists_isInteger_ofInt)

/-- The number is zero, a real one of either sign. -/
def IsZero (v : Value) : Prop := v.exactValue? = some ((0 : ℚ) : ExtendedRational)

/-- The number lies below zero. So does the negative infinity. -/
def IsNegative (v : Value) : Prop :=
  ∃ a, v.exactValue? = some a ∧ a < ((0 : ℚ) : ExtendedRational)

/-- The number is finite and lies between two integers. -/
def IsFractional (v : Value) : Prop :=
  ∃ q : ℚ, v.exactValue? = some (q : ExtendedRational) ∧ ∀ n : ℤ, q ≠ n

/-- The operation is one on integers, with an integer as its result. -/
def StaysIntegral (op : ArithmeticOp) (u v : Value) : Prop :=
  ∃ a b, u = integer a ∧ v = integer b ∧
    (op = .add ∨ op = .sub ∨ op = .mul ∨ op = .floorDiv ∨ op = .pow ∧ 0 ≤ b.toInt)

theorem isZero_integer (n : Integer64) : (integer n).IsZero ↔ n.toInt = 0 := by
  rw [IsZero, exactValue?, Option.some_inj, WithBotTop.coe_injective.eq_iff, Int.cast_eq_zero]

theorem isNegative_integer (n : Integer64) : (integer n).IsNegative ↔ n.toInt < 0 := by
  rw [← Int.cast_lt_zero (R := ℚ), ← WithBotTop.coe_lt_coe]
  constructor
  · rintro ⟨a, ha, hneg⟩
    cases ha
    exact hneg
  · intro hneg
    exact ⟨_, rfl, hneg⟩

theorem not_isFractional_integer (n : Integer64) : ¬ (integer n).IsFractional := by
  rintro ⟨q, hq, hfraction⟩
  cases hq
  exact hfraction n.toInt rfl

/-- The tests on an operand as a real are tests on its exact value. -/
theorem tests_toReal {v : Value} {x : Binary64} (h : v.toReal = .ok x) :
    (x.isZero = true ↔ v.IsZero) ∧ (x.isNegative = true ↔ v.IsNegative) ∧
      (x.hasFraction = true ↔ v.IsFractional) := by
  cases v with
  | boolean b => cases h
  | real y =>
    cases h
    exact ⟨Binary64.isZero_iff, Binary64.isNegative_iff, Binary64.hasFraction_iff⟩
  | integer n =>
    cases h
    obtain ⟨m, hm, hzero, hneg⟩ := exists_isInteger_ofInt n
    rw [hm.isZero_eq, hm.isNegative_eq, hm.hasFraction_eq, decide_eq_true_iff, decide_eq_true_iff,
      isZero_integer, isNegative_integer]
    exact ⟨hzero, hneg, iff_of_false Bool.false_ne_true (not_isFractional_integer n)⟩

theorem not_isNegative_of_isZero {v : Value} (h : v.IsZero) : ¬ v.IsNegative := by
  rintro ⟨a, ha, hneg⟩
  rw [IsZero, ha] at h
  cases h
  exact lt_irrefl _ hneg

/-! ### Outcomes -/

section

variable {op : ArithmeticOp} {x y : Binary64}

theorem onReals_divisionByZero_iff :
    onReals op x y = .error .divisionByZero ↔
      (op = .div ∨ op = .floorDiv) ∧ y.isZero = true ∨
        op = .pow ∧ x.isZero = true ∧ y.isNegative = true := by
  cases op with
  | add | sub | mul => simp [onReals]
  | div | floorDiv => simp [onReals]
  | pow =>
    simp only [onReals]
    split_ifs <;> simp_all

/-- A zero base is caught before its sign is looked at. -/
theorem onReals_typeError_iff :
    (∃ mismatch, onReals op x y = .error (.typeError mismatch)) ↔
      op = .pow ∧ ¬ (x.isZero = true ∧ y.isNegative = true) ∧ x.isNegative = true ∧
        y.hasFraction = true := by
  cases op with
  | add | sub | mul => simp [onReals]
  | div | floorDiv =>
    simp only [onReals]
    split_ifs <;> simp
  | pow =>
    simp only [onReals]
    split_ifs <;> simp_all

theorem onReals_cases (op : ArithmeticOp) (x y : Binary64) :
    (∃ z, onReals op x y = .ok (real z)) ∨
      (∃ mismatch, onReals op x y = .error (.typeError mismatch)) ∨
        onReals op x y = .error .divisionByZero := by
  cases op with
  | add | sub | mul => exact .inl ⟨_, rfl⟩
  | div | floorDiv =>
    simp only [onReals]
    split_ifs
    · exact .inr (.inr rfl)
    · exact .inl ⟨_, rfl⟩
  | pow =>
    simp only [onReals]
    split_ifs
    · exact .inr (.inr rfl)
    · exact .inr (.inl ⟨_, rfl⟩)
    · exact .inl ⟨_, rfl⟩

end

section

variable {op : ArithmeticOp} {u v : Value}

theorem isNumeric_of_kind_ne {v : Value} (h : v.kind ≠ .boolean) : v.isNumeric = true :=
  bne_iff_ne.mpr h

theorem exists_toReal_of_kind_ne {v : Value} (h : v.kind ≠ .boolean) :
    ∃ x, v.toReal = .ok x := by
  cases v with
  | integer n => exact ⟨_, rfl⟩
  | real x => exact ⟨x, rfl⟩
  | boolean b => exact absurd rfl h

theorem arithmetic_of_boolean (op : ArithmeticOp) (h : u.kind = .boolean ∨ v.kind = .boolean) :
    arithmetic op u v = .error (.typeError (.arithmetic op u.kind v.kind)) := by
  rcases h with h | h
  · cases u with
    | boolean b => exact arithmetic_boolean_left op b v
    | integer | real => cases h
  · cases v with
    | boolean b => exact arithmetic_boolean_right op u b
    | integer | real => cases h

/-- All that does not stay with integers is done on reals. -/
theorem arithmetic_eq_onReals {x y : Binary64} (h : ¬ StaysIntegral op u v)
    (hx : u.toReal = .ok x) (hy : v.toReal = .ok y) : arithmetic op u v = onReals op x y := by
  by_cases hreal : u.kind = .real ∨ v.kind = .real
  · exact arithmetic_of_toReal op hx hy hreal
  · cases u with
    | boolean c => cases hx
    | real x' => exact absurd (.inl rfl) hreal
    | integer a =>
      cases v with
      | boolean c => cases hy
      | real y' => exact absurd (.inr rfl) hreal
      | integer b =>
        have hintegral : ¬ (op = .add ∨ op = .sub ∨ op = .mul ∨ op = .floorDiv ∨
            op = .pow ∧ 0 ≤ b.toInt) := fun hop => h ⟨a, b, rfl, rfl, hop⟩
        cases op with
        | add | sub | mul | floorDiv => simp at hintegral
        | div =>
          have hreals : arithmetic .div (integer a) (integer b) =
              (do onReals .div (← (integer a).toReal) (← (integer b).toReal)) := rfl
          rw [hreals, hx, hy]
          rfl
        | pow =>
          have hb : ¬ 0 ≤ b.toInt := by simpa using hintegral
          rw [arithmetic_integers, onNumbers, if_neg hb, Except.ok.inj hx, Except.ok.inj hy]

/-- An operation that does not stay with integers fails with a type error exactly if an operand is a
boolean or a negative number has a fractional exponent, and with a division by zero exactly if its
divisor is zero or it is a negative power of zero. Otherwise its result is a real. -/
theorem real_arithmetic_is_defined_on_its_domain (h : ¬ StaysIntegral op u v) :
    ((∃ mismatch, arithmetic op u v = .error (.typeError mismatch)) ↔
      (u.kind = .boolean ∨ v.kind = .boolean) ∨ op = .pow ∧ u.IsNegative ∧ v.IsFractional) ∧
    (arithmetic op u v = .error .divisionByZero ↔
      (u.isNumeric = true ∧ v.isNumeric = true) ∧
        ((op = .div ∨ op = .floorDiv) ∧ v.IsZero ∨ op = .pow ∧ u.IsZero ∧ v.IsNegative)) ∧
    ((∃ z, arithmetic op u v = .ok (real z)) ∨
      (∃ mismatch, arithmetic op u v = .error (.typeError mismatch)) ∨
        arithmetic op u v = .error .divisionByZero) := by
  by_cases hboolean : u.kind = .boolean ∨ v.kind = .boolean
  · have herror := arithmetic_of_boolean op hboolean
    refine ⟨iff_of_true ⟨_, herror⟩ (.inl hboolean), iff_of_false (by simp [herror]) ?_,
      .inr (.inl ⟨_, herror⟩)⟩
    rintro ⟨⟨hu, hv⟩, -⟩
    rcases hboolean with hkind | hkind
    · simp [isNumeric, hkind] at hu
    · simp [isNumeric, hkind] at hv
  · obtain ⟨hu, hv⟩ := not_or.mp hboolean
    obtain ⟨x, hx⟩ := exists_toReal_of_kind_ne hu
    obtain ⟨y, hy⟩ := exists_toReal_of_kind_ne hv
    obtain ⟨hxzero, hxneg, -⟩ := tests_toReal hx
    obtain ⟨hyzero, hyneg, hyfraction⟩ := tests_toReal hy
    have hreals := arithmetic_eq_onReals h hx hy
    refine ⟨?_, ?_, hreals ▸ onReals_cases op x y⟩
    · rw [hreals, onReals_typeError_iff, hxzero, hxneg, hyneg, hyfraction]
      constructor
      · rintro ⟨hop, -, hbase, hexponent⟩
        exact .inr ⟨hop, hbase, hexponent⟩
      · rintro (hkind | ⟨hop, hbase, hexponent⟩)
        · exact absurd hkind hboolean
        · exact ⟨hop, fun hzero => not_isNegative_of_isZero hzero.1 hbase, hbase, hexponent⟩
    · rw [hreals, onReals_divisionByZero_iff, hxzero, hyzero, hyneg]
      exact (and_iff_right ⟨isNumeric_of_kind_ne hu, isNumeric_of_kind_ne hv⟩).symm

end

/-- The square root of a negative integer that has to be rounded is not defined, nor is a power of
zero with an infinitely negative exponent. The square root of the negative zero is a real. -/
theorem powers_are_defined_on_their_domain :
    let negative : Value := integer ⟨-9007199254740993, by decide, by decide⟩
    let zero : Value := real (.zero true)
    let half : Binary64 := .ofBits 0x3fe0000000000000
    (∃ mismatch, arithmetic .pow negative (real half) = .error (.typeError mismatch)) ∧
      arithmetic .pow zero (real (.infinite true)) = .error .divisionByZero ∧
      ∃ z, arithmetic .pow zero (real half) = .ok (real z) := by
  intro negative zero half
  have hreal (u : Value) (y : Binary64) : ¬ StaysIntegral .pow u (real y) := by
    rintro ⟨a, b, -, hb, -⟩
    cases hb
  have hnegative : negative.IsNegative := (isNegative_integer _).mpr (by decide)
  have hzero : zero.IsZero := (tests_toReal rfl).1.mp (by decide +kernel)
  have hhalf : (real half).IsFractional := (tests_toReal rfl).2.2.mp (by decide +kernel)
  have hpositive : ¬ (real half).IsNegative := by
    rw [← (tests_toReal rfl).2.1]
    decide +kernel
  have hinfinite : (real (.infinite true)).IsNegative :=
    (tests_toReal rfl).2.1.mp (by decide +kernel)
  refine ⟨?_, ?_, ?_⟩
  · have hroot := (real_arithmetic_is_defined_on_its_domain (hreal negative half)).1
    exact hroot.mpr (.inr ⟨rfl, hnegative, hhalf⟩)
  · have hpower := (real_arithmetic_is_defined_on_its_domain (hreal zero (.infinite true))).2.1
    exact hpower.mpr ⟨⟨rfl, rfl⟩, .inr ⟨rfl, hzero, hinfinite⟩⟩
  · obtain ⟨htype, hdivision, hz | htype' | hdivision'⟩ :=
      real_arithmetic_is_defined_on_its_domain (hreal zero half)
    · exact hz
    · rcases htype.mp htype' with (hkind | hkind) | ⟨-, hneg, -⟩
      · cases hkind
      · cases hkind
      · exact absurd hneg (not_isNegative_of_isZero hzero)
    · rcases (hdivision.mp hdivision').2 with ⟨hop | hop, -⟩ | ⟨-, -, hneg⟩
      · cases hop
      · cases hop
      · exact absurd hneg hpositive

end Value

end BoundedScript
