import BoundedScript.Proofs.Binary64.Exact
import Mathlib.Algebra.Order.Field.Basic
import Mathlib.Algebra.Group.Even
import Mathlib.Tactic.Linarith
import Mathlib.Tactic.FieldSimp
import Mathlib.Tactic.Ring

/-!
# Rounding takes the nearest number

The numbers with 53 binary digits form a grid whose gap doubles with every further digit. Rounding
counts in the gap that belongs to the size of the exact quotient. That misses no nearer number: all
larger ones are on a grid that is as coarse or coarser, and what lies on a finer grid lies below the
least number of the size of the quotient.
-/

namespace BoundedScript.Binary64

/-- The count of units has at most 53 significant binary digits. It may be beyond every finite
number. -/
def OnGrid (units : ℕ) : Prop := 2 ^ gap units ∣ units

/-- Of all counts with 53 digits, `n` is nearest to `q`. If another one is as near, the last digit
of `n` is even. -/
structure RoundsTo (q : ℚ) (n : ℕ) : Prop where
  onGrid : OnGrid n
  nearest : ∀ m, OnGrid m → |q - n| ≤ |q - m|
  even : ∀ m, OnGrid m → m ≠ n → |q - m| = |q - n| → Even (n / 2 ^ gap n)

/-! ### The nearest natural number -/

section

variable (num : ℕ) {den : ℕ} (hden : 0 < den)

include hden

theorem cast_div_eq_add_mod :
    (num : ℚ) / den = (num / den : ℕ) + ((num % den : ℕ) : ℚ) / den := by
  have hne : (den : ℚ) ≠ 0 := Nat.cast_ne_zero.mpr hden.ne'
  have hdiv : (den : ℚ) * (num / den : ℕ) + (num % den : ℕ) = num := by
    exact_mod_cast Nat.div_add_mod num den
  rw [← hdiv, add_div, mul_div_cancel_left₀ _ hne]

/-- A half is rounded to the even neighbour, and everything else less than a half away. -/
theorem abs_sub_roundDiv :
    |(num : ℚ) / den - roundDiv num den| < 1 / 2 ∨
      |(num : ℚ) / den - roundDiv num den| = 1 / 2 ∧ Even (roundDiv num den) := by
  have hpos : (0 : ℚ) < den := Nat.cast_pos.mpr hden
  have hmod : ((num % den : ℕ) : ℚ) / den < 1 := by
    rw [div_lt_one hpos]
    exact_mod_cast Nat.mod_lt num hden
  have hnonneg : (0 : ℚ) ≤ ((num % den : ℕ) : ℚ) / den := by positivity
  rw [cast_div_eq_add_mod num hden]
  unfold roundDiv
  generalize num / den = q at *
  cases hcompare : compare (2 * (num % den)) den with
  | lt =>
    have hlt : ((num % den : ℕ) : ℚ) / den < 1 / 2 := by
      rw [div_lt_div_iff₀ hpos two_pos]
      exact_mod_cast (by have := Nat.compare_eq_lt.mp hcompare; omega)
    left
    rw [add_sub_cancel_left, abs_of_nonneg hnonneg]
    exact hlt
  | eq =>
    have heq : ((num % den : ℕ) : ℚ) / den = 1 / 2 := by
      rw [div_eq_div_iff hpos.ne' two_ne_zero]
      exact_mod_cast (by have := Nat.compare_eq_eq.mp hcompare; omega)
    right
    rw [heq]
    rcases Nat.even_or_odd q with hq | hq
    · simp [Nat.even_iff.mp hq, hq]
    · simp only [Nat.odd_iff.mp hq, Nat.cast_add, Nat.cast_one, hq.add_one, and_true]
      rw [add_sub_add_left_eq_sub]
      norm_num
  | gt =>
    have hgt : 1 / 2 < ((num % den : ℕ) : ℚ) / den := by
      rw [div_lt_div_iff₀ two_pos hpos]
      exact_mod_cast (by have := Nat.compare_eq_gt.mp hcompare; omega)
    left
    rw [Nat.cast_add, Nat.cast_one, add_sub_add_left_eq_sub, abs_lt]
    constructor <;> linarith

end

/-- What is at most a half away is at least as near as every other natural number. -/
theorem half_le_abs_sub {x : ℚ} {k j : ℕ} (h : |x - k| ≤ 1 / 2) (hne : j ≠ k) :
    1 / 2 ≤ |x - j| := by
  have hgap : (1 : ℚ) ≤ |(k : ℚ) - j| := by
    have hint : (1 : ℤ) ≤ |(k : ℤ) - j| := Int.one_le_abs (by omega)
    exact_mod_cast hint
  have htriangle : |(k : ℚ) - j| ≤ |x - k| + |x - j| := by
    rw [abs_sub_comm x k]
    exact abs_sub_le (k : ℚ) x j
  linarith

/-! ### The grid -/

theorem pow_le_of_lt_gap {units k : ℕ} (h : k < gap units) : 2 ^ (52 + gap units) ≤ units := by
  have hne : units ≠ 0 := by
    rintro rfl
    simp [gap] at h
  have hlog : 52 + gap units = units.log2 := by
    simp only [gap] at h ⊢
    omega
  rw [hlog]
  exact Nat.log2_self_le hne

/-- A number on the grid either counts in the gap of another one or is below all numbers of its
size. -/
theorem OnGrid.dvd_or_lt {m : ℕ} (hm : OnGrid m) (units : ℕ) :
    2 ^ gap units ∣ m ∨ m < 2 ^ (52 + gap units) ∧ 2 ^ (52 + gap units) ≤ units := by
  by_cases h : gap units ≤ gap m
  · exact .inl ((pow_dvd_pow 2 h).trans hm)
  · have hlt : gap m < gap units := Nat.lt_of_not_le h
    refine .inr ⟨?_, pow_le_of_lt_gap hlt⟩
    calc m < digitLimit <<< gap m := lt_digitLimit_shiftLeft_gap m
      _ = 2 ^ (53 + gap m) := by rw [digitLimit_shiftLeft, Nat.one_shiftLeft]
      _ ≤ 2 ^ (52 + gap units) := Nat.pow_le_pow_right two_pos (by omega)

/-! ### Rounding a quotient -/

section

variable (num : ℕ) {den : ℕ} (hden : 0 < den)

/-- The number of gaps that a quotient is rounded to. -/
def roundedGaps (num den : ℕ) : ℕ := roundDiv num (den * 2 ^ quotientGap num den)

theorem roundUnits_eq (num den : ℕ) :
    roundUnits num den = roundedGaps num den * 2 ^ quotientGap num den := by
  rw [roundUnits, Nat.shiftLeft_eq, Nat.shiftLeft_eq, roundedGaps]

theorem roundedGaps_le (num den : ℕ) : roundedGaps num den ≤ 2 ^ 53 := by
  have h := roundDiv_quotientGap_le num den
  rwa [Nat.shiftLeft_eq, digitLimit, Nat.one_shiftLeft] at h

include hden

/-- Distances to whole numbers of gaps, counted in gaps. -/
theorem abs_sub_gaps (j : ℕ) :
    |(num : ℚ) / den - (j * 2 ^ quotientGap num den : ℕ)| =
      |(num : ℚ) / (den * 2 ^ quotientGap num den : ℕ) - j| * 2 ^ quotientGap num den := by
  have hne : (den : ℚ) ≠ 0 := Nat.cast_ne_zero.mpr hden.ne'
  have hpos : (0 : ℚ) < 2 ^ quotientGap num den := by positivity
  rw [← abs_of_pos hpos, ← abs_mul]
  congr 1
  push_cast
  field_simp

theorem abs_sub_roundedGaps :
    |(num : ℚ) / (den * 2 ^ quotientGap num den : ℕ) - roundedGaps num den| < 1 / 2 ∨
      |(num : ℚ) / (den * 2 ^ quotientGap num den : ℕ) - roundedGaps num den| = 1 / 2 ∧
        Even (roundedGaps num den) :=
  abs_sub_roundDiv num (Nat.mul_pos hden (Nat.two_pow_pos _))

/-- No other whole number of gaps is nearer, and one that is as near leaves an even number. -/
theorem roundedGaps_nearest {j : ℕ} (hne : j ≠ roundedGaps num den) :
    |(num : ℚ) / den - roundUnits num den| < |(num : ℚ) / den - (j * 2 ^ quotientGap num den : ℕ)| ∨
      |(num : ℚ) / den - roundUnits num den| =
        |(num : ℚ) / den - (j * 2 ^ quotientGap num den : ℕ)| ∧ Even (roundedGaps num den) := by
  have hpos : (0 : ℚ) < 2 ^ quotientGap num den := by positivity
  rw [roundUnits_eq, abs_sub_gaps num hden, abs_sub_gaps num hden, mul_lt_mul_iff_left₀ hpos,
    mul_left_inj' hpos.ne']
  rcases abs_sub_roundedGaps num hden with h | ⟨h, heven⟩
  · exact .inl (h.trans_le (half_le_abs_sub h.le hne))
  · rcases (half_le_abs_sub h.le hne).lt_or_eq with hlt | heq
    · exact .inl (h.trans_lt hlt)
    · exact .inr ⟨h.trans heq, heven⟩

/-- Numbers below the size of the quotient are farther away than the least one of that size. -/
theorem abs_sub_lt_of_lt {m : ℕ} (hm : m < 2 ^ (52 + quotientGap num den))
    (hle : 2 ^ (52 + quotientGap num den) ≤ num / den) :
    |(num : ℚ) / den - (2 ^ 52 * 2 ^ quotientGap num den : ℕ)| < |(num : ℚ) / den - m| := by
  rw [← pow_add]
  have hpos : (0 : ℚ) < den := Nat.cast_pos.mpr hden
  have hsize : ((2 ^ (52 + quotientGap num den) : ℕ) : ℚ) ≤ num / den := by
    rw [le_div_iff₀ hpos]
    exact_mod_cast (Nat.le_div_iff_mul_le hden).mp hle
  have hlt : (m : ℚ) < (2 ^ (52 + quotientGap num den) : ℕ) := by exact_mod_cast hm
  rw [abs_of_nonneg (by linarith), abs_of_nonneg (by linarith)]
  linarith

theorem roundUnits_nearest {m : ℕ} (hm : OnGrid m) (hne : m ≠ roundUnits num den) :
    |(num : ℚ) / den - roundUnits num den| < |(num : ℚ) / den - m| ∨
      |(num : ℚ) / den - roundUnits num den| = |(num : ℚ) / den - m| ∧
        Even (roundedGaps num den) := by
  rcases hm.dvd_or_lt (num / den) with ⟨j, rfl⟩ | ⟨hlt, hle⟩
  · rw [mul_comm] at hne ⊢
    apply roundedGaps_nearest num hden
    rintro rfl
    exact hne (roundUnits_eq num den).symm
  · left
    have hfar := abs_sub_lt_of_lt num hden hlt hle
    by_cases hleast : 2 ^ 52 = roundedGaps num den
    · rwa [hleast, ← roundUnits_eq] at hfar
    · rcases roundedGaps_nearest num hden hleast with h | ⟨h, -⟩
      · exact h.trans hfar
      · exact h.trans_lt hfar

omit hden in
/-- Rounding up may give one more digit, but that digit is zero. -/
theorem gap_gaps {k g : ℕ} (hk : k ≤ 2 ^ 53) :
    gap (k * 2 ^ g) ≤ g ∨ k = 2 ^ 53 ∧ gap (k * 2 ^ g) = g + 1 := by
  rcases hk.lt_or_eq with hlt | rfl
  · left
    apply gap_le
    rw [Nat.shiftLeft_eq, digitLimit, Nat.one_shiftLeft]
    exact Nat.mul_lt_mul_of_pos_right hlt (Nat.two_pow_pos g)
  · right
    rw [← pow_add, gap, Nat.log2_two_pow]
    exact ⟨rfl, by omega⟩

omit hden in
theorem onGrid_gaps {k : ℕ} (g : ℕ) (hk : k ≤ 2 ^ 53) : OnGrid (k * 2 ^ g) := by
  rw [OnGrid]
  rcases gap_gaps (g := g) hk with h | ⟨rfl, h⟩
  · exact (pow_dvd_pow 2 h).trans (dvd_mul_left ..)
  · rw [h, ← pow_add]
    exact pow_dvd_pow 2 (by omega)

omit hden in
theorem even_gaps {k : ℕ} (g : ℕ) (hk : k ≤ 2 ^ 53) (heven : Even k) :
    Even (k * 2 ^ g / 2 ^ gap (k * 2 ^ g)) := by
  rcases gap_gaps (g := g) hk with h | ⟨rfl, h⟩
  · obtain ⟨i, hi⟩ := Nat.exists_eq_add_of_le h
    have hquotient : k * 2 ^ g / 2 ^ gap (k * 2 ^ g) = k * 2 ^ i := by
      generalize gap (k * 2 ^ g) = j at hi
      rw [hi, pow_add, mul_left_comm, Nat.mul_div_cancel_left _ (Nat.two_pow_pos j)]
    rw [hquotient]
    exact heven.mul_right _
  · rw [h, ← pow_add, Nat.pow_div (by omega) two_pos]
    exact (even_two).pow_of_ne_zero (by omega)

/-- A quotient of units is rounded to the nearest number, a tie to the one with an even last
digit. -/
theorem roundsTo_roundUnits : RoundsTo ((num : ℚ) / den) (roundUnits num den) where
  onGrid := by
    rw [roundUnits_eq]
    exact onGrid_gaps _ (roundedGaps_le num den)
  nearest m hm := by
    by_cases hne : m = roundUnits num den
    · rw [hne]
    · rcases roundUnits_nearest num hden hm hne with h | ⟨h, -⟩
      · exact h.le
      · exact h.le
  even m hm hne htie := by
    rcases roundUnits_nearest num hden hm hne with h | ⟨-, heven⟩
    · exact absurd htie h.ne'
    · rw [roundUnits_eq]
      exact even_gaps _ (roundedGaps_le num den) heven

omit hden in
theorem roundUnits_of_ofRatio {num : ℕ} {negative negative' : Bool} {units : ℕ}
    {h : Representable units} (hround : ofRatio negative num den = .finite negative' units h) :
    roundUnits num den = units := by
  unfold ofRatio at hround
  split at hround
  · cases hround
    rfl
  · cases hround

omit hden in
theorem ofRatio_of_roundUnits {num : ℕ} (negative : Bool) {units : ℕ} (h : Representable units)
    (hround : roundUnits num den = units) : ofRatio negative num den = .finite negative units h := by
  subst hround
  exact dif_pos h.bounded

end

/-! ### Equal quotients -/

section

variable {num den num' den' : ℕ}

theorem roundDiv_mul_mul (num den : ℕ) {c : ℕ} (hc : 0 < c) :
    roundDiv (num * c) (den * c) = roundDiv num den := by
  have hcompare : compare (2 * (num % den * c)) (den * c) = compare (2 * (num % den)) den := by
    have hmono : StrictMono fun n : ℕ => n * c := fun a b h => Nat.mul_lt_mul_of_pos_right h hc
    rw [← mul_assoc]
    exact compare_map_of_strictMono hmono _ _
  rw [roundDiv, Nat.mul_div_mul_right _ _ hc, Nat.mul_mod_mul_right, hcompare, roundDiv]

theorem roundUnits_mul_mul (num den : ℕ) {c : ℕ} (hc : 0 < c) :
    roundUnits (num * c) (den * c) = roundUnits num den := by
  have hgap : quotientGap (num * c) (den * c) = quotientGap num den := by
    rw [quotientGap, Nat.mul_div_mul_right _ _ hc, quotientGap]
  rw [roundUnits_eq, roundedGaps, hgap, mul_right_comm, roundDiv_mul_mul _ _ hc, ← roundedGaps,
    ← roundUnits_eq]

/-- Rounding sees only the value of a quotient. -/
theorem ofRatio_congr (negative : Bool) (hden : 0 < den) (hden' : 0 < den')
    (h : num * den' = num' * den) : ofRatio negative num den = ofRatio negative num' den' := by
  have hunits : roundUnits num den = roundUnits num' den' :=
    calc roundUnits num den = roundUnits (num * den') (den * den') :=
          (roundUnits_mul_mul num den hden').symm
      _ = roundUnits (num' * den) (den' * den) := by rw [h, mul_comm den]
      _ = roundUnits num' den' := roundUnits_mul_mul num' den' hden
  simp only [ofRatio, hunits]

end

end BoundedScript.Binary64
