/-! # 64-bit integers

The integers of a script lie in the range of 64 bits with a sign. They never wrap around: results
are worked out on all integers, and `ofInt?` says whether one is in range.
-/

namespace BoundedScript

structure Integer64 where
  toInt : Int
  lower : -0x8000000000000000 ≤ toInt
  upper : toInt < 0x8000000000000000
  deriving DecidableEq, Repr

namespace Integer64

@[ext]
theorem ext {a b : Integer64} (h : a.toInt = b.toInt) : a = b := by
  cases a
  cases b
  congr

def ofInt? (n : Int) : Option Integer64 :=
  if h : -0x8000000000000000 ≤ n ∧ n < 0x8000000000000000 then some ⟨n, h.1, h.2⟩ else none

@[simp]
theorem ofInt?_toInt (a : Integer64) : ofInt? a.toInt = some a :=
  dif_pos ⟨a.lower, a.upper⟩

theorem ofInt?_eq_some_iff {n : Int} {a : Integer64} : ofInt? n = some a ↔ a.toInt = n := by
  constructor
  · intro h
    unfold ofInt? at h
    split at h
    · cases h
      rfl
    · contradiction
  · rintro rfl
    exact ofInt?_toInt a

theorem ofInt?_eq_none_iff {n : Int} : ofInt? n = none ↔ n < -0x8000000000000000 ∨ 0x8000000000000000 ≤ n := by
  unfold ofInt?
  split
  · simp only [reduceCtorEq, false_iff]
    omega
  · simp only [true_iff]
    omega

/-- The next integer. The largest one has none and stays. -/
def next (a : Integer64) : Integer64 := (ofInt? (a.toInt + 1)).getD a

theorem toInt_next {a : Integer64} (h : a.toInt + 1 < 0x8000000000000000) : a.next.toInt = a.toInt + 1 := by
  have := a.lower
  have hr : -0x8000000000000000 ≤ a.toInt + 1 ∧ a.toInt + 1 < 0x8000000000000000 := ⟨by omega, h⟩
  simp only [next, ofInt?, dif_pos hr, Option.getD_some]

/-- The integer before. The least one has none and stays. -/
def previous (a : Integer64) : Integer64 := (ofInt? (a.toInt - 1)).getD a

theorem toInt_previous {a : Integer64} (h : -0x8000000000000000 ≤ a.toInt - 1) :
    a.previous.toInt = a.toInt - 1 := by
  have := a.upper
  have hr : -0x8000000000000000 ≤ a.toInt - 1 ∧ a.toInt - 1 < 0x8000000000000000 := ⟨h, by omega⟩
  simp only [previous, ofInt?, dif_pos hr, Option.getD_some]

/-- The quotient by a divisor other than zero, rounded down. It is cut off toward zero first. If
that leaves a remainder whose sign is not that of the divisor, it was the wrong way. -/
def floorDiv? (a b : Integer64) : Option Integer64 := do
  let quotient ← ofInt? (a.toInt.tdiv b.toInt)
  let remainder ← ofInt? (a.toInt.tmod b.toInt)
  if remainder.toInt ≠ 0 ∧ decide (remainder.toInt < 0) ≠ decide (b.toInt < 0) then
    return quotient.previous
  else return quotient

def mul? (a b : Integer64) : Option Integer64 := ofInt? (a.toInt * b.toInt)

/-- `factor` times a power with an exponent other than zero, by repeated squaring. Every product
must be in range. The base is squared only if the exponent has a further digit. -/
def mulPow? (factor base : Integer64) (exponent : Nat) : Option Integer64 :=
  if exponent ≤ 1 then factor.mul? base
  else do
    let factor ← (if exponent % 2 = 1 then factor.mul? base else some factor)
    mulPow? factor (← base.mul? base) (exponent / 2)
termination_by exponent
decreasing_by omega

/-- A power with an exponent that is not negative. All powers of -1, 0 and 1 are in range and need
no product. Exponents of more than 32 digits are out of the question for any other base. -/
def pow? (base exponent : Integer64) : Option Integer64 :=
  if base.toInt = 0 then ofInt? (if exponent.toInt = 0 then 1 else 0)
  else if base.toInt = 1 then ofInt? 1
  else if base.toInt = -1 then ofInt? (if exponent.toInt % 2 = 0 then 1 else -1)
  else if exponent.toInt = 0 then ofInt? 1
  else if exponent.toInt < 0x100000000 then
    mulPow? ⟨1, by decide, by decide⟩ base exponent.toInt.toNat
  else none

end Integer64

end BoundedScript
