import BoundedScript.Proofs.Binary64.Exact
import BoundedScript.Value.Comparison
import Mathlib.Order.Compare

/-!
# Comparisons follow the exact values

An integer stands for itself and a real for the value of its digits, so numbers of both kinds lie on
one line. An integer is compared with a real rounded down, and the two guards and the tie give the
order of the exact values. Equality is computed apart from the order and agrees with it.
-/

namespace BoundedScript

open Binary64 (ExtendedRational Quantity unitsPerOne unitsPerOne_pos signedUnits)

/-- What an operator says of two exact values. -/
def ComparisonOp.Relates : ComparisonOp → ExtendedRational → ExtendedRational → Prop
  | .eq, a, b => a = b
  | .ne, a, b => a ≠ b
  | .lt, a, b => a < b
  | .gt, a, b => b < a
  | .le, a, b => a ≤ b
  | .ge, a, b => b ≤ a

instance (op : ComparisonOp) (a b : ExtendedRational) : Decidable (op.Relates a b) :=
  match op with
  | .eq => inferInstanceAs (Decidable (a = b))
  | .ne => inferInstanceAs (Decidable (a ≠ b))
  | .lt => inferInstanceAs (Decidable (a < b))
  | .gt => inferInstanceAs (Decidable (b < a))
  | .le => inferInstanceAs (Decidable (a ≤ b))
  | .ge => inferInstanceAs (Decidable (b ≤ a))

/-- What an operator says of two values of which one may be missing, and is then only unequal. -/
def ComparisonOp.Holds (op : ComparisonOp) :
    Option ExtendedRational → Option ExtendedRational → Prop
  | some a, some b => op.Relates a b
  | _, _ => op = .ne

instance (op : ComparisonOp) (p q : Option ExtendedRational) : Decidable (op.Holds p q) :=
  match p, q with
  | some a, some b => inferInstanceAs (Decidable (op.Relates a b))
  | none, _ | some _, none => inferInstanceAs (Decidable (op = .ne))

/-- The operator that says the same of exchanged operands. -/
def ComparisonOp.mirror : ComparisonOp → ComparisonOp
  | .eq => .eq
  | .ne => .ne
  | .lt => .gt
  | .gt => .lt
  | .le => .ge
  | .ge => .le

/-- The exact value of a number. A `nan` has none, and neither has a boolean. -/
def Value.exactValue? : Value → Option ExtendedRational
  | integer n => some ((n.toInt : ℚ) : ExtendedRational)
  | real x => x.exactValue?
  | boolean _ => none

/-! ### An integer and a real -/

section

variable {u : ℤ} (hu : 0 < u)

include hu

theorem compare_mul_mul (m n : ℤ) : compare (m * u) (n * u) = compare m n :=
  Binary64.compare_map_of_strictMono (strictMono_mul_right_of_pos hu) m n

/-- A multiple is compared with a number by way of the last multiple that is not above it. -/
theorem compare_mul_eq (n c : ℤ) :
    compare (n * u) c = (compare n (c / u)).then (compare (c / u * u) c) := by
  rcases lt_trichotomy n (c / u) with h | rfl | h
  · rw [compare_lt_iff_lt.mpr h, compare_lt_iff_lt.mpr]
    · rfl
    · calc n * u < c / u * u := Int.mul_lt_mul_of_pos_right h hu
        _ ≤ c := Int.ediv_mul_le c hu.ne'
  · rw [compare_eq_iff_eq.mpr rfl]
    rfl
  · rw [compare_gt_iff_gt.mpr h, compare_gt_iff_gt.mpr]
    · rfl
    · exact (Int.ediv_lt_iff_lt_mul hu).mp h

end

theorem quantity_compare?_ofInt (m n : ℤ) :
    (Quantity.ofInt m).compare? (Quantity.ofInt n) = some (compare m n) :=
  congrArg some (compare_mul_mul (Int.natCast_pos.mpr unitsPerOne_pos) m n)

namespace Value

theorem quantity_integerBound : integerBound.quantity = .ofInt 0x8000000000000000 :=
  Binary64.quantity_ofInt (by decide +kernel)

theorem compare?_integerBound (x : Binary64) :
    x.compare? integerBound = x.quantity.compare? (.ofInt 0x8000000000000000) := by
  rw [Binary64.compare?, quantity_integerBound]

theorem compare?_neg_integerBound (x : Binary64) :
    x.compare? (-integerBound) = x.quantity.compare? (.ofInt (-0x8000000000000000)) := by
  rw [Binary64.compare?, Binary64.quantity_neg quantity_integerBound]

/-- The guards only catch what lies beyond every integer of a script, so they do not change the
order. -/
theorem guarded_compare_eq (n : Integer64) (whole : ℤ) (tie : Ordering) :
    (if 0x8000000000000000 ≤ whole then some .lt
      else if whole < -0x8000000000000000 then some .gt
      else
        match compare n.toInt whole with
        | .eq => some tie
        | order => some order) =
      some ((compare n.toInt whole).then tie) := by
  have hlower := n.lower
  have hupper := n.upper
  split_ifs with habove hbelow
  · have hlt : compare n.toInt whole = .lt := compare_lt_iff_lt.mpr (by omega)
    rw [hlt]
    rfl
  · have hgt : compare n.toInt whole = .gt := compare_gt_iff_gt.mpr (by omega)
    rw [hgt]
    rfl
  · cases compare n.toInt whole <;> rfl

theorem compare_of_le {m c : ℤ} (h : m ≤ c) : compare m c = if c = m then .eq else .lt := by
  split_ifs with heq
  · exact compare_eq_iff_eq.mpr heq.symm
  · exact compare_lt_iff_lt.mpr (lt_of_le_of_ne' h heq)

theorem integerOrder?_finite (n : Integer64) (negative : Bool) (units : ℕ)
    (h : Binary64.Representable units) :
    integerOrder? n (.finite negative units h) =
      some (compare (n.toInt * unitsPerOne) (signedUnits negative units)) := by
  have hpos : (0 : ℤ) < unitsPerOne := Int.natCast_pos.mpr unitsPerOne_pos
  have hsame :
      (Binary64.finite negative units h).sameValue (Binary64.finite negative units h).floor =
        (some (compare (signedUnits negative units)
          (signedUnits negative units / unitsPerOne * unitsPerOne)) == some .eq) := by
    rw [Binary64.sameValue, Binary64.compare?, Binary64.quantity_floor]
    rfl
  rw [integerOrder?, compare?_integerBound, compare?_neg_integerBound, hsame,
    Binary64.quantity_floor, Binary64.truncate_floor, quantity_compare?_ofInt,
    quantity_compare?_ofInt, if_neg (by simp), compare_mul_eq hpos,
    compare_of_le (Int.ediv_mul_le _ hpos.ne')]
  simp only [Option.any_some, Int.isGE_compare, beq_iff_eq, Option.some.injEq, compare_lt_iff_lt,
    compare_eq_iff_eq]
  exact guarded_compare_eq n _ _

theorem integerOrder?_infinite (n : Integer64) (negative : Bool) :
    integerOrder? n (.infinite negative) = some (if negative then .gt else .lt) := by
  have hfloor : (Binary64.infinite negative).floor = .infinite negative := rfl
  rw [integerOrder?, hfloor, if_neg (by simp), compare?_integerBound, compare?_neg_integerBound]
  cases negative <;> rfl

theorem integerOrder?_eq (n : Integer64) (y : Binary64) :
    integerOrder? n y = (Quantity.ofInt n.toInt).compare? y.quantity := by
  cases y with
  | nan => rfl
  | infinite negative => exact integerOrder?_infinite n negative
  | finite negative units h => exact integerOrder?_finite n negative units h

/-! ### Any two values -/

theorem map_swap_compare (p q : Option ExtendedRational) :
    (Option.map₂ compare p q).map Ordering.swap = Option.map₂ compare q p := by
  rw [Option.map_map₂, Option.map₂_swap]
  simp only [← Std.OrientedCmp.eq_swap]

theorem exactValue?_integer (n : Integer64) :
    (integer n).exactValue? = (Quantity.ofInt n.toInt).exactValue? :=
  (Quantity.exactValue?_ofInt n.toInt).symm

theorem integerOrder?_eq_exactValue? (n : Integer64) (y : Binary64) :
    integerOrder? n y = Option.map₂ compare (integer n).exactValue? (real y).exactValue? := by
  rw [integerOrder?_eq, Quantity.compare?_eq, exactValue?_integer]
  rfl

/-- The computed order is the order of the exact values. -/
theorem order?_eq (x y : Value) : x.order? y = Option.map₂ compare x.exactValue? y.exactValue? := by
  cases x with
  | integer a =>
    cases y with
    | integer b =>
      rw [order?, ← quantity_compare?_ofInt, Quantity.compare?_eq, exactValue?_integer,
        exactValue?_integer]
    | real y => exact integerOrder?_eq_exactValue? a y
    | boolean b => rfl
  | real x =>
    cases y with
    | integer b => rw [order?, integerOrder?_eq_exactValue?, map_swap_compare]
    | real y => exact Quantity.compare?_eq x.quantity y.quantity
    | boolean b => exact (Option.map₂_none_right _ _).symm
  | boolean a => rfl

theorem order?_swap (x y : Value) : y.order? x = (x.order? y).map Ordering.swap := by
  rw [order?_eq, order?_eq, map_swap_compare]

/-- Equality is computed without the order and agrees with it. -/
theorem equals_iff_order? {x y : Value} (hx : x.isNumeric = true) (hy : y.isNumeric = true) :
    x.equals y = true ↔ x.order? y = some .eq := by
  cases x with
  | integer a =>
    cases y with
    | integer b => simp [equals, order?, Integer64.ext_iff]
    | real y => exact beq_iff_eq
    | boolean b => cases hy
  | real x =>
    cases y with
    | integer b =>
      rw [order?_swap]
      simp [equals, order?]
    | real y => exact beq_iff_eq
    | boolean b => cases hy
  | boolean a => cases hx

end Value

/-! ### Operators -/

namespace ComparisonOp

theorem accepts_map₂_compare (op : ComparisonOp) (p q : Option ExtendedRational) :
    op.accepts (Option.map₂ compare p q) = true ↔ op.Holds p q := by
  rcases p with _ | a
  · cases op <;> simp [accepts, Holds]
  rcases q with _ | b
  · cases op <;> simp [accepts, Holds]
  rcases lt_trichotomy a b with h | rfl | h
  · rw [Option.map₂_coe_coe, compare_lt_iff_lt.mpr h]
    cases op <;> simp [accepts, Holds, Relates, h, h.ne, h.le, h.not_gt]
  · rw [Option.map₂_coe_coe, compare_eq_iff_eq.mpr rfl]
    cases op <;> simp [accepts, Holds, Relates]
  · rw [Option.map₂_coe_coe, compare_gt_iff_gt.mpr h]
    cases op <;> simp [accepts, Holds, Relates, h, h.ne', h.le, h.not_gt]

theorem accepts_swap (op : ComparisonOp) (order : Option Ordering) :
    op.accepts (order.map Ordering.swap) = op.mirror.accepts order := by
  rcases order with _ | _ | _ | _ <;> cases op <;> rfl

theorem existsUnique_relates (a b : ExtendedRational) :
    ∃! op : ComparisonOp, (op = .lt ∨ op = .eq ∨ op = .gt) ∧ op.Relates a b := by
  rcases lt_trichotomy a b with h | h | h
  · refine ⟨.lt, ⟨.inl rfl, h⟩, ?_⟩
    rintro op ⟨rfl | rfl | rfl, hop⟩
    · rfl
    · exact absurd hop h.ne
    · exact absurd hop h.not_gt
  · refine ⟨.eq, ⟨.inr (.inl rfl), h⟩, ?_⟩
    rintro op ⟨rfl | rfl | rfl, hop⟩
    · exact absurd h hop.ne
    · rfl
    · exact absurd h hop.ne'
  · refine ⟨.gt, ⟨.inr (.inr rfl), h⟩, ?_⟩
    rintro op ⟨rfl | rfl | rfl, hop⟩
    · exact absurd hop h.not_gt
    · exact absurd hop h.ne'
    · rfl

theorem holds_lt_trans {p q r : Option ExtendedRational} (hpq : ComparisonOp.lt.Holds p q)
    (hqr : ComparisonOp.lt.Holds q r) : ComparisonOp.lt.Holds p r := by
  rcases p with _ | a
  · cases hpq
  rcases q with _ | b
  · cases hpq
  rcases r with _ | c
  · cases hqr
  exact lt_trans hpq hqr

end ComparisonOp

namespace Value

/-- The comparison is true. -/
def Compares (op : ComparisonOp) (x y : Value) : Prop := comparison op x y = .ok (boolean true)

section

variable {x y : Value} (hx : x.isNumeric = true) (hy : y.isNumeric = true)

include hx hy

theorem comparison_eq_accepts (op : ComparisonOp) :
    comparison op x y = .ok (boolean (op.accepts (x.order? y))) := by
  have hequals : x.equals y = (x.order? y == some .eq) :=
    Bool.eq_iff_iff.mpr ((equals_iff_order? hx hy).trans beq_iff_eq.symm)
  cases op <;> simp [comparison, ComparisonOp.accepts, hequals, hx, hy, bne]

theorem compares_iff_accepts (op : ComparisonOp) :
    Compares op x y ↔ op.accepts (x.order? y) = true := by
  rw [Compares, comparison_eq_accepts hx hy]
  simp

theorem compares_iff (op : ComparisonOp) :
    Compares op x y ↔ op.Holds x.exactValue? y.exactValue? := by
  rw [compares_iff_accepts hx hy, order?_eq, ComparisonOp.accepts_map₂_compare]

theorem comparison_eq_holds (op : ComparisonOp) :
    comparison op x y = .ok (boolean (decide (op.Holds x.exactValue? y.exactValue?))) := by
  have haccepts : op.accepts (x.order? y) = decide (op.Holds x.exactValue? y.exactValue?) := by
    rw [Bool.eq_iff_iff, decide_eq_true_iff, ← compares_iff hx hy, compares_iff_accepts hx hy]
  rw [comparison_eq_accepts hx hy, haccepts]

theorem comparison_swap (op : ComparisonOp) : comparison op y x = comparison op.mirror x y := by
  rw [comparison_eq_accepts hy hx, comparison_eq_accepts hx hy, order?_swap,
    ComparisonOp.accepts_swap]

end

theorem exists_exactValue? {x : Value} (hx : x.isNumeric = true) (hnan : x ≠ .real .nan) :
    ∃ a, x.exactValue? = some a := by
  cases x with
  | integer n => exact ⟨_, rfl⟩
  | real x =>
    cases x with
    | nan => exact absurd rfl hnan
    | infinite negative => exact ⟨_, rfl⟩
    | finite negative units h => exact ⟨_, rfl⟩
  | boolean b => cases hx

theorem existsUnique_compares {x y : Value} (hx : x.isNumeric = true) (hy : y.isNumeric = true)
    (hxnan : x ≠ .real .nan) (hynan : y ≠ .real .nan) :
    ∃! op, (op = .lt ∨ op = .eq ∨ op = .gt) ∧ Compares op x y := by
  obtain ⟨a, ha⟩ := exists_exactValue? hx hxnan
  obtain ⟨b, hb⟩ := exists_exactValue? hy hynan
  simp only [compares_iff hx hy, ha, hb]
  exact ComparisonOp.existsUnique_relates a b

section

variable {x y : Value} (h : (x.isNumeric && y.isNumeric) = false)

include h

theorem equals_iff_booleans : x.equals y = true ↔ ∃ c, x = boolean c ∧ y = boolean c := by
  cases x with
  | integer a =>
    cases y with
    | boolean b => simp [equals]
    | integer b => cases h
    | real y => cases h
  | real x =>
    cases y with
    | boolean b => simp [equals]
    | integer b => cases h
    | real y => cases h
  | boolean a =>
    cases y with
    | boolean b => simp [equals, eq_comm (a := a)]
    | integer b => simp [equals]
    | real y => simp [equals]

theorem comparison_order_error {op : ComparisonOp} (heq : op ≠ .eq) (hne : op ≠ .ne) :
    comparison op x y = .error (.typeError (.comparison op x.kind y.kind)) := by
  have hif : ¬ (x.isNumeric && y.isNumeric) = true := Bool.not_eq_true _ ▸ h
  cases op with
  | eq => exact absurd rfl heq
  | ne => exact absurd rfl hne
  | lt => exact if_neg hif
  | gt => exact if_neg hif
  | le => exact if_neg hif
  | ge => exact if_neg hif

end

theorem isNumeric_of_compares_lt {x y : Value} (h : Compares .lt x y) :
    x.isNumeric = true ∧ y.isNumeric = true := by
  rw [← Bool.and_eq_true_iff]
  by_contra hnot
  have herror : comparison .lt x y = .error (.typeError (.comparison .lt x.kind y.kind)) :=
    comparison_order_error (Bool.eq_false_iff.mpr hnot) (by decide) (by decide)
  rw [Compares, herror] at h
  cases h

/-- Comparisons follow the exact values. A real is the number that its bits denote, numbers of both
kinds have one order, in which a `nan` has no place, and booleans are only equal or not. -/
theorem comparisons_are_exact :
    (∀ word, (Binary64.ofBits word).exactValue? = Binary64.denoted? word) ∧
    (∀ x y : Value, x.isNumeric = true → y.isNumeric = true →
      (∀ op, comparison op x y = .ok (boolean (decide (op.Holds x.exactValue? y.exactValue?)))) ∧
      (x.equals y = true ↔ x.order? y = some .eq) ∧
      (x ≠ .real .nan → y ≠ .real .nan →
        ∃! op, (op = .lt ∨ op = .eq ∨ op = .gt) ∧ Compares op x y) ∧
      (Compares .le x y ↔ Compares .lt x y ∨ Compares .eq x y) ∧
      (Compares .ge x y ↔ Compares .gt x y ∨ Compares .eq x y) ∧
      ∀ op, comparison op y x = comparison op.mirror x y) ∧
    (∀ x y z, Compares .lt x y → Compares .lt y z → Compares .lt x z) ∧
    ∀ x y : Value, (x.isNumeric && y.isNumeric) = false →
      (∃ b, comparison .eq x y = .ok (boolean b) ∧ comparison .ne x y = .ok (boolean !b) ∧
        (b = true ↔ ∃ c, x = boolean c ∧ y = boolean c)) ∧
      ∀ op, op ≠ .eq → op ≠ .ne →
        comparison op x y = .error (.typeError (.comparison op x.kind y.kind)) := by
  refine ⟨Binary64.exactValue?_ofBits, ?_, ?_, ?_⟩
  · intro x y hx hy
    refine ⟨comparison_eq_holds hx hy, equals_iff_order? hx hy, existsUnique_compares hx hy, ?_, ?_,
      comparison_swap hx hy⟩
    · simp only [compares_iff_accepts hx hy]
      exact Bool.or_eq_true_iff
    · simp only [compares_iff_accepts hx hy]
      exact Bool.or_eq_true_iff
  · intro x y z hxy hyz
    obtain ⟨hx, hy⟩ := isNumeric_of_compares_lt hxy
    obtain ⟨-, hz⟩ := isNumeric_of_compares_lt hyz
    rw [compares_iff hx hy] at hxy
    rw [compares_iff hy hz] at hyz
    rw [compares_iff hx hz]
    exact ComparisonOp.holds_lt_trans hxy hyz
  · intro x y h
    refine ⟨⟨x.equals y, rfl, rfl, equals_iff_booleans h⟩, ?_⟩
    intro op heq hne
    exact comparison_order_error h heq hne

/-- An integer that no real equals has its place between two neighbouring reals, the largest integer
has one next to 2⁶³, and a boolean has none at all. -/
theorem integers_have_their_place_among_reals :
    Compares .lt (real (.ofBits 0x4340000000000000))
      (integer ⟨9007199254740993, by decide, by decide⟩) ∧
    Compares .lt (integer ⟨9007199254740993, by decide, by decide⟩)
      (real (.ofBits 0x4340000000000001)) ∧
    Compares .lt (real (.ofBits 0x4340000000000000)) (real (.ofBits 0x4340000000000001)) ∧
    (∃! op, (op = .lt ∨ op = .eq ∨ op = .gt) ∧
      Compares op (integer ⟨9223372036854775807, by decide, by decide⟩)
        (real (.ofBits 0x43e0000000000000))) ∧
    comparison .le (boolean true) (integer ⟨1, by decide, by decide⟩) =
      .error (.typeError (.comparison .le .boolean .integer)) := by
  obtain ⟨-, hnumbers, htrans, hbooleans⟩ := comparisons_are_exact
  have hbelow : Compares .lt (real (.ofBits 0x4340000000000000))
      (integer ⟨9007199254740993, by decide, by decide⟩) := by
    unfold Compares
    decide +kernel
  have habove : Compares .lt (integer ⟨9007199254740993, by decide, by decide⟩)
      (real (.ofBits 0x4340000000000001)) := by
    unfold Compares
    decide +kernel
  have hunique := (hnumbers (integer ⟨9223372036854775807, by decide, by decide⟩)
    (real (.ofBits 0x43e0000000000000)) rfl rfl).2.2.1 (by decide) (by decide +kernel)
  exact ⟨hbelow, habove, htrans _ _ _ hbelow habove, hunique,
    (hbooleans _ _ rfl).2 .le (by decide) (by decide)⟩

end Value

end BoundedScript
