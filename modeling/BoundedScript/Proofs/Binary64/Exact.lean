import BoundedScript.Binary64.Arithmetic
import Mathlib.Algebra.Order.Field.Rat
import Mathlib.Algebra.Order.Ring.Cast
import Mathlib.Data.Option.NAry
import Mathlib.Order.WithBotTop

/-!
# The exact value of a binary64 number

A finite number stands for the rational that its sign, exponent and fraction give, and an infinity
lies beyond all rationals. Numbers are compared in units, which is the same as to compare these
values, and rounding a number down is exact: the result has at most as many digits as the number.
-/

namespace BoundedScript.Binary64

/-- The rationals with a least and a greatest element added. -/
abbrev ExtendedRational := WithBotTop ℚ

/-- The value that a sign, an exponent of eleven digits and a fraction of 52 digits denote, if it is
a number. The least exponent marks the numbers without a leading digit, the greatest what is not
finite. -/
def denotedBy (negative : Bool) (exponent fraction : ℕ) : Option ExtendedRational :=
  let magnitude : ℚ :=
    if exponent = 0 then fraction * 2 ^ (-1074 : ℤ)
    else (2 ^ 52 + fraction) * 2 ^ ((exponent : ℤ) - 1075)
  if exponent < 2047 then some ((if negative then -magnitude else magnitude : ℚ) : ExtendedRational)
  else if fraction = 0 then some (if negative then ⊥ else ⊤)
  else none

/-- The value that a word denotes, if it is a number. -/
def denoted? (word : UInt64) : Option ExtendedRational :=
  denotedBy (decide (2 ^ 63 ≤ word.toNat)) (word.toNat / 2 ^ 52 % 2 ^ 11) (word.toNat % 2 ^ 52)

/-- The value of a quantity, if it is a number. -/
def Quantity.exactValue? : Quantity → Option ExtendedRational
  | nan => none
  | infinite negative => some (if negative then ⊥ else ⊤)
  | units count => some ((count / unitsPerOne : ℚ) : ExtendedRational)

/-- The exact value of a binary64 number. -/
def exactValue? (x : Binary64) : Option ExtendedRational := x.quantity.exactValue?

theorem one_shiftLeft_pos (k : ℕ) : 0 < 1 <<< k := by
  rw [Nat.one_shiftLeft]
  exact Nat.two_pow_pos k

theorem unitsPerOne_pos : 0 < unitsPerOne := one_shiftLeft_pos 1074

theorem Quantity.exactValue?_ofInt (n : ℤ) :
    (Quantity.ofInt n).exactValue? = some ((n : ℚ) : ExtendedRational) := by
  have hne : (unitsPerOne : ℚ) ≠ 0 := Nat.cast_ne_zero.mpr unitsPerOne_pos.ne'
  rw [Quantity.ofInt, Quantity.exactValue?, Int.cast_mul, Int.cast_natCast,
    mul_div_cancel_right₀ _ hne]

/-! ### Signed counts -/

theorem signedUnits_false (units : ℕ) : signedUnits false units = units :=
  if_neg Bool.false_ne_true

theorem signedUnits_true (units : ℕ) : signedUnits true units = -units :=
  if_pos rfl

theorem signedUnits_not (negative : Bool) (units : ℕ) :
    signedUnits (!negative) units = -signedUnits negative units := by
  cases negative
  · rw [Bool.not_false, signedUnits_true, signedUnits_false]
  · rw [Bool.not_true, signedUnits_true, signedUnits_false, Int.neg_neg]

theorem signedUnits_mul (negative : Bool) (m n : ℕ) :
    signedUnits negative (m * n) = signedUnits negative m * n := by
  cases negative <;> simp [signedUnits]

theorem signedUnits_natAbs (n : ℤ) : signedUnits (decide (n < 0)) n.natAbs = n := by
  by_cases h : n < 0
  · rw [decide_eq_true h, signedUnits_true]
    omega
  · rw [decide_eq_false h, signedUnits_false]
    omega

/-! ### Fields of a word -/

theorem cast_shiftLeft_div_one_shiftLeft (m k j : ℕ) :
    ((m <<< k : ℕ) : ℚ) / (1 <<< j : ℕ) = m * 2 ^ ((k : ℤ) - j) := by
  rw [Nat.shiftLeft_eq, Nat.one_shiftLeft, zpow_sub₀ two_ne_zero]
  push_cast
  rw [zpow_natCast, zpow_natCast, mul_div_assoc]

theorem cast_shiftLeft_div_unitsPerOne (m k : ℕ) :
    ((m <<< k : ℕ) : ℚ) / unitsPerOne = m * 2 ^ ((k : ℤ) - 1074) :=
  cast_shiftLeft_div_one_shiftLeft m k 1074

theorem exactValue?_finite {negative : Bool} {units : ℕ} {magnitude : ℚ} (h : Representable units)
    (hmagnitude : (units : ℚ) / unitsPerOne = magnitude) :
    (finite negative units h).exactValue? =
      some ((if negative then -magnitude else magnitude : ℚ) : ExtendedRational) := by
  rw [exactValue?, quantity, Quantity.exactValue?, ← hmagnitude]
  cases negative
  · rw [signedUnits_false, Int.cast_natCast, if_neg Bool.false_ne_true]
  · rw [signedUnits_true, Int.cast_neg, Int.cast_natCast, neg_div, if_pos rfl]

theorem exactValue?_of_fraction (negative : Bool) (fraction : ℕ) (h : Representable fraction) :
    (finite negative fraction h).exactValue? = denotedBy negative 0 fraction := by
  rw [exactValue?_finite h (cast_shiftLeft_div_unitsPerOne fraction 0)]
  rfl

theorem exactValue?_of_fields (negative : Bool) {exponent fraction : ℕ} (hpos : exponent ≠ 0)
    (hlt : exponent < 2047) (h : Representable ((1 <<< 52 + fraction) <<< (exponent - 1))) :
    (finite negative ((1 <<< 52 + fraction) <<< (exponent - 1)) h).exactValue? =
      denotedBy negative exponent fraction := by
  have hpower : ((exponent - 1 : ℕ) : ℤ) - 1074 = exponent - 1075 := by omega
  have hdigits : ((1 <<< 52 + fraction : ℕ) : ℚ) = 2 ^ 52 + fraction := by
    rw [Nat.one_shiftLeft]
    push_cast
    rfl
  rw [exactValue?_finite h (cast_shiftLeft_div_unitsPerOne _ _), hpower, hdigits, denotedBy,
    if_pos hlt, if_neg hpos]

theorem exactValue?_ofBits (word : UInt64) : (ofBits word).exactValue? = denoted? word := by
  have hexponent : word.toNat >>> 52 % 2048 = word.toNat / 2 ^ 52 % 2 ^ 11 := by
    rw [Nat.shiftRight_eq_div_pow]
    rfl
  have hfraction : word.toNat % 1 <<< 52 = word.toNat % 2 ^ 52 := by rw [Nat.one_shiftLeft]
  have hnegative : decide (1 <<< 63 ≤ word.toNat) = decide (2 ^ 63 ≤ word.toNat) := by
    rw [Nat.one_shiftLeft]
  rw [denoted?, ← hexponent, ← hfraction, ← hnegative, ofBits]
  split
  · rename_i hlt
    split
    · rename_i hzero
      rw [hzero]
      exact exactValue?_of_fraction _ _ _
    · rename_i hpos
      exact exactValue?_of_fields _ hpos hlt _
  · rename_i hge
    rw [denotedBy, if_neg hge]
    split <;> rfl

/-! ### Comparison -/

theorem compare_map_of_strictMono {α β : Type} [LinearOrder α] [LinearOrder β] {f : α → β}
    (hf : StrictMono f) (a b : α) : compare (f a) (f b) = compare a b := by
  rw [← cmp_eq_compare, ← cmp_eq_compare, hf.cmp_map_eq]

theorem compare_units (m n : ℤ) :
    compare ((m / unitsPerOne : ℚ) : ExtendedRational) ((n / unitsPerOne : ℚ) : ExtendedRational) =
      compare m n := by
  have hpos : (0 : ℚ) < unitsPerOne := Nat.cast_pos.mpr unitsPerOne_pos
  have hmono : StrictMono fun count : ℤ => ((count / unitsPerOne : ℚ) : ExtendedRational) := by
    intro a b h
    rw [WithBotTop.coe_lt_coe, div_lt_div_iff_of_pos_right hpos]
    exact Int.cast_lt.mpr h
  exact compare_map_of_strictMono hmono m n

/-- Quantities are ordered like the values that they stand for. -/
theorem Quantity.compare?_eq (q r : Quantity) :
    q.compare? r = Option.map₂ compare q.exactValue? r.exactValue? := by
  have hbot (x : ℚ) : (⊥ : ExtendedRational) < x := WithBot.bot_lt_coe _
  have htop (x : ℚ) : (x : ExtendedRational) < ⊤ := WithBot.coe_lt_coe.mpr (WithTop.coe_lt_top x)
  cases q with
  | nan => rfl
  | infinite s =>
    cases r with
    | nan => rfl
    | infinite t =>
      have hbounds : (⊥ : ExtendedRational) < ⊤ := bot_lt_top
      cases s <;> cases t
      · exact congrArg some (compare_eq_iff_eq.mpr rfl).symm
      · exact congrArg some (compare_gt_iff_gt.mpr hbounds).symm
      · exact congrArg some (compare_lt_iff_lt.mpr hbounds).symm
      · exact congrArg some (compare_eq_iff_eq.mpr rfl).symm
    | units n =>
      cases s
      · exact congrArg some (compare_gt_iff_gt.mpr (htop _)).symm
      · exact congrArg some (compare_lt_iff_lt.mpr (hbot _)).symm
  | units m =>
    cases r with
    | nan => rfl
    | infinite t =>
      cases t
      · exact congrArg some (compare_lt_iff_lt.mpr (htop _)).symm
      · exact congrArg some (compare_gt_iff_gt.mpr (hbot _)).symm
    | units n => exact congrArg some (compare_units m n).symm

/-! ### Rounding down -/

theorem lt_digitLimit_shiftLeft_gap (units : ℕ) : units < digitLimit <<< gap units := by
  rw [digitLimit_shiftLeft, Nat.one_shiftLeft]
  by_cases hzero : units = 0
  · rw [hzero]
    exact Nat.two_pow_pos _
  · refine (Nat.log2_lt hzero).1 ?_
    simp only [gap]
    omega

/-- Where neighbours are less than one apart, numbers have up to 53 digits before the point. -/
theorem lt_of_gap_lt {units : ℕ} (h : gap units < 1074) : units < digitLimit * unitsPerOne :=
  calc units < digitLimit <<< gap units := lt_digitLimit_shiftLeft_gap units
    _ = digitLimit * 1 <<< gap units := by rw [Nat.shiftLeft_eq, Nat.one_shiftLeft]
    _ ≤ digitLimit * unitsPerOne :=
      Nat.mul_le_mul_left _ (Nat.le_of_dvd unitsPerOne_pos (one_shiftLeft_dvd h.le 1))

/-- A number with a fraction has up to 53 digits before the point. -/
theorem div_unitsPerOne_lt {units : ℕ} (h : Representable units)
    (hfraction : ¬ unitsPerOne ∣ units) : units / unitsPerOne < digitLimit := by
  have hgap : gap units < 1074 := by
    by_contra hge
    exact hfraction ((one_shiftLeft_dvd (Nat.le_of_not_lt hge) 1).trans h.onGrid)
  exact (Nat.div_lt_iff_lt_mul unitsPerOne_pos).mpr (lt_of_gap_lt hgap)

theorem shiftLeft_lt_unitBound {m k : ℕ} (hm : m ≤ digitLimit) (hk : 53 + k < digitBound) :
    m <<< k < unitBound :=
  calc m <<< k ≤ digitLimit <<< k := by
        rw [Nat.shiftLeft_eq, Nat.shiftLeft_eq]
        exact Nat.mul_le_mul_right _ hm
    _ < unitBound := by
        rw [digitLimit_shiftLeft, unitBound, Nat.one_shiftLeft, Nat.one_shiftLeft]
        exact Nat.pow_lt_pow_right (by decide) hk

theorem representable_mul_unitsPerOne {m : ℕ} (h : m ≤ digitLimit) :
    Representable (m * unitsPerOne) := by
  have hshift : m * unitsPerOne = m <<< 1074 := by
    rw [unitsPerOne, Nat.one_shiftLeft, Nat.shiftLeft_eq]
  rw [hshift]
  exact .shiftLeft h (shiftLeft_lt_unitBound h (by decide))

section

variable {u : ℕ} (hu : 0 < u)

include hu

theorem mul_add_pred_div (m : ℕ) : (u * m + (u - 1)) / u = m := by
  rw [Nat.mul_add_div hu, Nat.div_eq_of_lt (by omega), Nat.add_zero]

theorem add_pred_div_le (n : ℕ) : (n + (u - 1)) / u ≤ n / u + 1 := by
  rw [← Nat.add_div_right n hu]
  exact Nat.div_le_div_right (by omega)

/-- Rounding a negative number down rounds its magnitude up. -/
theorem neg_ediv_eq_neg_add_pred_div (n : ℕ) :
    -(n : ℤ) / u = -(((n + (u - 1)) / u : ℕ) : ℤ) := by
  have hdiv := Nat.div_add_mod (n + (u - 1)) u
  have hmod := Nat.mod_lt (n + (u - 1)) hu
  generalize (n + (u - 1)) / u = q at hdiv
  generalize (n + (u - 1)) % u = r at hdiv hmod
  have hdiv' : (u : ℤ) * q + r = n + (u - 1) := by
    rw [← Nat.cast_pred hu]
    exact_mod_cast hdiv
  have hunique := (Int.ediv_emod_unique (a := -n) (r := u - 1 - r) (q := -q)
    (Int.natCast_pos.mpr hu)).mpr
  refine (hunique ⟨?_, ?_, ?_⟩).1
  · rw [Int.mul_neg]
    omega
  · omega
  · omega

end

/-- The integer next to a magnitude on the side that its sign makes the lower one. -/
def wholeBelow (negative : Bool) (units : ℕ) : ℕ :=
  if negative then (units + (unitsPerOne - 1)) / unitsPerOne else units / unitsPerOne

theorem wholeBelow_false (units : ℕ) : wholeBelow false units = units / unitsPerOne :=
  if_neg Bool.false_ne_true

theorem wholeBelow_true (units : ℕ) :
    wholeBelow true units = (units + (unitsPerOne - 1)) / unitsPerOne :=
  if_pos rfl

theorem representable_wholeBelow (negative : Bool) {units : ℕ} (h : Representable units) :
    Representable (wholeBelow negative units * unitsPerOne) := by
  by_cases hfraction : unitsPerOne ∣ units
  · obtain ⟨m, rfl⟩ := hfraction
    have hwhole : wholeBelow negative (unitsPerOne * m) = m := by
      cases negative
      · rw [wholeBelow_false, Nat.mul_div_cancel_left m unitsPerOne_pos]
      · rw [wholeBelow_true, mul_add_pred_div unitsPerOne_pos]
    rwa [hwhole, Nat.mul_comm]
  · have hlt := div_unitsPerOne_lt h hfraction
    apply representable_mul_unitsPerOne
    cases negative
    · rw [wholeBelow_false]
      exact hlt.le
    · rw [wholeBelow_true]
      exact (add_pred_div_le unitsPerOne_pos units).trans hlt

theorem floor_finite (negative : Bool) {units : ℕ} (h : Representable units) :
    (finite negative units h).floor =
      finite negative (wholeBelow negative units * unitsPerOne)
        (representable_wholeBelow negative h) := by
  rw [floor, ← wholeBelow, ofUnits_of_representable]

theorem signedUnits_wholeBelow (negative : Bool) (units : ℕ) :
    signedUnits negative (wholeBelow negative units) =
      signedUnits negative units / (unitsPerOne : ℤ) := by
  cases negative
  · rw [wholeBelow_false, signedUnits_false, signedUnits_false, Int.natCast_ediv]
  · rw [wholeBelow_true, signedUnits_true, signedUnits_true,
      neg_ediv_eq_neg_add_pred_div unitsPerOne_pos]

theorem truncate_floor (negative : Bool) {units : ℕ} (h : Representable units) :
    (finite negative units h).floor.truncate = signedUnits negative units / (unitsPerOne : ℤ) := by
  rw [floor_finite, truncate, Nat.mul_div_cancel _ unitsPerOne_pos, signedUnits_wholeBelow]

theorem quantity_floor (negative : Bool) {units : ℕ} (h : Representable units) :
    (finite negative units h).floor.quantity =
      .ofInt (signedUnits negative units / (unitsPerOne : ℤ)) := by
  rw [floor_finite, quantity, signedUnits_mul, signedUnits_wholeBelow, Quantity.ofInt]

theorem quantity_ofInt {n : ℤ} (h : Representable (n.natAbs * unitsPerOne)) :
    (ofInt n).quantity = .ofInt n := by
  rw [ofInt, ofUnits_of_representable _ h, quantity, signedUnits_mul, signedUnits_natAbs,
    Quantity.ofInt]

theorem quantity_neg {x : Binary64} {n : ℤ} (h : x.quantity = .ofInt n) :
    (-x).quantity = .ofInt (-n) := by
  cases x with
  | nan => cases h
  | infinite negative => cases h
  | finite negative units hunits =>
    have hcount : signedUnits negative units = n * unitsPerOne := Quantity.units.inj h
    have hneg : (-finite negative units hunits).quantity = .units (signedUnits (!negative) units) :=
      rfl
    rw [hneg, signedUnits_not, hcount, Quantity.ofInt, Int.neg_mul]

end BoundedScript.Binary64
