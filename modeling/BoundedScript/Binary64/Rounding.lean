import BoundedScript.Binary64

/-! # Rounding an exact quotient to a binary64 number

`ofRatio` is the only place where a number is rounded. It finds the gap between neighbours at the
size of the quotient, rounds to a whole number of gaps with ties to the even one, and turns what
lies beyond the range into an infinity. Every other operation hands it an exact quotient.
-/

namespace BoundedScript.Binary64

/-- `num / den` rounded to the nearest natural number, a half to the even neighbour. -/
def roundDiv (num den : Nat) : Nat :=
  let q := num / den
  match compare (2 * (num % den)) den with
  | .lt => q
  | .eq => q + q % 2
  | .gt => q + 1

theorem div_le_roundDiv (num den : Nat) : num / den ≤ roundDiv num den := by
  simp only [roundDiv]
  split <;> omega

theorem roundDiv_le (num den : Nat) : roundDiv num den ≤ num / den + 1 := by
  simp only [roundDiv]
  split <;> omega

/-- A whole quotient is not changed by rounding. -/
@[simp]
theorem roundDiv_mul_right (q : Nat) {den : Nat} (h : 0 < den) : roundDiv (q * den) den = q := by
  have : compare 0 den = .lt := Nat.compare_eq_lt.2 h
  simp [roundDiv, Nat.mul_div_cancel _ h, this]

/-- The gap exponent at the size of `num / den`. -/
def quotientGap (num den : Nat) : Nat := gap (num / den)

/-- `num / den` units, rounded to a whole number of gaps. -/
def roundUnits (num den : Nat) : Nat :=
  roundDiv num (den <<< quotientGap num den) <<< quotientGap num den

/-- At most 53 binary digits are left of a quotient once it is counted in gaps. -/
theorem roundDiv_quotientGap_le (num den : Nat) :
    roundDiv num (den <<< quotientGap num den) ≤ digitLimit := by
  have hq : num / den < digitLimit <<< quotientGap num den := by
    rw [digitLimit_shiftLeft, Nat.one_shiftLeft]
    by_cases h0 : num / den = 0
    · rw [h0]
      exact Nat.two_pow_pos _
    · refine (Nat.log2_lt h0).1 ?_
      simp only [quotientGap, gap]
      omega
  have hd : num / (den <<< quotientGap num den) < digitLimit := by
    rw [Nat.shiftLeft_eq, ← Nat.div_div_eq_div_mul]
    refine Nat.div_lt_of_lt_mul ?_
    rwa [Nat.mul_comm, ← Nat.shiftLeft_eq]
  exact Nat.le_trans (roundDiv_le ..) hd

theorem roundUnits_representable {num den : Nat} (h : roundUnits num den < unitBound) :
    Representable (roundUnits num den) :=
  .shiftLeft (roundDiv_quotientGap_le num den) h

/-- The number nearest to `num / den` units, with the given sign. Of two numbers equally near it
takes the one with an even last digit, and beyond the largest number an infinity. -/
def ofRatio (negative : Bool) (num den : Nat) : Binary64 :=
  if h : roundUnits num den < unitBound then
    .finite negative (roundUnits num den) (roundUnits_representable h)
  else .infinite negative

def ofUnits (negative : Bool) (units : Nat) : Binary64 := ofRatio negative units 1

def ofInt (n : Int) : Binary64 := ofUnits (decide (n < 0)) (n.natAbs * unitsPerOne)

/-- What is representable is its own nearest number. -/
theorem roundUnits_mul {units den : Nat} (h : Representable units) (hd : 0 < den) :
    roundUnits (units * den) den = units := by
  obtain ⟨m, hm⟩ := h.onGrid
  have hg : quotientGap (units * den) den = gap units := by
    rw [quotientGap, Nat.mul_div_cancel _ hd]
  rw [Nat.one_shiftLeft] at hm
  rw [roundUnits, hg, Nat.shiftLeft_eq, Nat.shiftLeft_eq]
  have hpos := Nat.mul_pos hd (Nat.two_pow_pos (gap units))
  generalize 2 ^ gap units = w at hm hpos
  have : units * den = m * (den * w) := by
    subst hm
    simp only [Nat.mul_comm, Nat.mul_left_comm]
  rw [this, roundDiv_mul_right m hpos, Nat.mul_comm]
  exact hm.symm

@[simp]
theorem ofRatio_mul (negative : Bool) {units den : Nat} (h : Representable units) (hd : 0 < den) :
    ofRatio negative (units * den) den = .finite negative units h := by
  simp [ofRatio, roundUnits_mul h hd, h.bounded]

@[simp]
theorem ofUnits_of_representable (negative : Bool) {units : Nat} (h : Representable units) :
    ofUnits negative units = .finite negative units h := by
  simpa [ofUnits] using ofRatio_mul negative h Nat.one_pos

end BoundedScript.Binary64
