/-! # Binary64 numbers, exactly

Every finite number of the 64-bit binary format is a whole multiple of the least positive one,
2⁻¹⁰⁷⁴. A number is therefore kept as a sign and a count of such units, and its arithmetic is
arithmetic on natural numbers: comparison, remainder and floor need no rounding at all, and the
other operations round one exact quotient. `toBits` and `ofBits` give the usual bit layout.
-/

namespace BoundedScript

namespace Binary64

/-- How many units of 2⁻¹⁰⁷⁴ make up the number one. -/
def unitsPerOne : Nat := 1 <<< 1074

/-- Every finite number has at most this many binary digits when counted in units. -/
def digitBound : Nat := 2098

/-- The first count of units that lies beyond every finite number. -/
def unitBound : Nat := 1 <<< digitBound

/-- The first whole number with more than the 53 digits that a number may have. -/
def digitLimit : Nat := 1 <<< 53

/-- The exponent of the gap between neighbours around `units`: the leading 53 binary digits carry
the number, all below them are zero. -/
def gap (units : Nat) : Nat := units.log2 - 52

/-- A count of units is the magnitude of a finite number when it is in range and has at most 53
significant binary digits. -/
structure Representable (units : Nat) : Prop where
  bounded : units < unitBound
  onGrid : 1 <<< gap units ∣ units

instance (units : Nat) : Decidable (Representable units) :=
  decidable_of_iff (units < unitBound ∧ 1 <<< gap units ∣ units)
    ⟨fun h => ⟨h.1, h.2⟩, fun h => ⟨h.bounded, h.onGrid⟩⟩

theorem shiftLeft_lt_shiftLeft {m n : Nat} (h : m < n) (k : Nat) : m <<< k < n <<< k := by
  rw [Nat.shiftLeft_eq, Nat.shiftLeft_eq]
  exact Nat.mul_lt_mul_of_pos_right h (Nat.two_pow_pos k)

theorem digitLimit_shiftLeft (k : Nat) : digitLimit <<< k = 1 <<< (53 + k) :=
  (Nat.shiftLeft_add 1 53 k).symm

theorem digitLimit_shiftLeft_le {k : Nat} (h : 53 + k ≤ digitBound) :
    digitLimit <<< k ≤ unitBound := by
  rw [digitLimit_shiftLeft, unitBound, Nat.one_shiftLeft, Nat.one_shiftLeft]
  exact Nat.pow_le_pow_right Nat.two_pos h

theorem gap_le {n k : Nat} (h : n < digitLimit <<< k) : gap n ≤ k := by
  by_cases hn : n = 0
  · simp [gap, hn]
  · rw [digitLimit_shiftLeft, Nat.one_shiftLeft] at h
    have := (Nat.log2_lt hn).2 h
    simp only [gap]
    omega

theorem one_shiftLeft_dvd {j k : Nat} (h : j ≤ k) (m : Nat) : 1 <<< j ∣ m <<< k := by
  rw [Nat.one_shiftLeft, Nat.shiftLeft_eq]
  exact Nat.dvd_trans (Nat.pow_dvd_pow 2 h) (Nat.dvd_mul_left ..)

theorem Representable.shiftLeft {m k : Nat} (hm : m ≤ digitLimit) (h : m <<< k < unitBound) :
    Representable (m <<< k) := by
  refine ⟨h, ?_⟩
  rcases Nat.lt_or_eq_of_le hm with hm | rfl
  · exact one_shiftLeft_dvd (gap_le (shiftLeft_lt_shiftLeft hm k)) m
  · have hg : gap (digitLimit <<< k) = k + 1 := by
      rw [digitLimit_shiftLeft, Nat.one_shiftLeft, gap, Nat.log2_two_pow]
      omega
    rw [hg, digitLimit_shiftLeft]
    exact one_shiftLeft_dvd (by omega) 1

theorem Representable.zero : Representable 0 := by decide +kernel

end Binary64

/-- A number of the 64-bit binary format. There are two zeros, and one `nan`: no operation of the
language tells two of them apart. -/
inductive Binary64 where
  | nan
  | infinite (negative : Bool)
  | finite (negative : Bool) (units : Nat) (representable : Binary64.Representable units)
  deriving DecidableEq

namespace Binary64

def zero (negative : Bool) : Binary64 := .finite negative 0 .zero

instance : Inhabited Binary64 := ⟨zero false⟩

def signedUnits (negative : Bool) (units : Nat) : Int :=
  if negative then -(units : Int) else units

def isZero : Binary64 → Bool
  | .finite _ units _ => units == 0
  | _ => false

/-- Whether a finite number lies strictly between two neighbouring integers. -/
def hasFraction : Binary64 → Bool
  | .finite _ units _ => units % unitsPerOne != 0
  | _ => false

/-- The sign bit, which a zero has as well. -/
def signBit : Binary64 → Bool
  | .nan => false
  | .infinite negative => negative
  | .finite negative .. => negative

/-! ## Exact comparison -/

/-- The place of a number on the line, in units of 2⁻¹⁰⁷⁴ and without rounding. -/
inductive Quantity where
  | nan
  | infinite (negative : Bool)
  | units (count : Int)
  deriving DecidableEq

/-- The order of two quantities. A pair with a `nan` has none. -/
def Quantity.compare? : Quantity → Quantity → Option Ordering
  | nan, _ | _, nan => none
  | infinite s, infinite t => some (if s = t then .eq else if s then .lt else .gt)
  | infinite s, units _ => some (if s then .lt else .gt)
  | units _, infinite t => some (if t then .gt else .lt)
  | units m, units n => some (compare m n)

def Quantity.ofInt (n : Int) : Quantity := .units (n * unitsPerOne)

/-- The quantity of a number. Both zeros have the same one. -/
def quantity : Binary64 → Quantity
  | .nan => .nan
  | .infinite negative => .infinite negative
  | .finite negative units _ => .units (signedUnits negative units)

/-- The order of two numbers by exact value. -/
def compare? (x y : Binary64) : Option Ordering := x.quantity.compare? y.quantity

/-- Equality by value: both zeros are equal, and a `nan` is equal to nothing. -/
def sameValue (x y : Binary64) : Bool := x.compare? y == some .eq

def isNegative (x : Binary64) : Bool := x.compare? (zero false) == some .lt

/-! ## The bit layout -/

/-- The magnitude field of a finite number. Counting the units in gaps and the gaps themselves
gives exponent and fraction in one sum: the leading digit that the layout leaves out carries into
the exponent. -/
def magnitudeBits (units : Nat) : Nat := gap units <<< 52 + units >>> gap units

def toBits : Binary64 → UInt64
  | .nan => 0x7ff8000000000000
  | .infinite negative => bits negative 0x7ff0000000000000
  | .finite negative units _ => bits negative (magnitudeBits units)
where
  bits (negative : Bool) (magnitude : Nat) : UInt64 :=
    .ofNat ((if negative then 1 <<< 63 else 0) + magnitude)

theorem representable_of_fraction {f : Nat} (h : f < 1 <<< 52) : Representable f := by
  have hl : f < digitLimit := Nat.lt_trans h (by decide)
  exact Representable.shiftLeft (k := 0) (Nat.le_of_lt hl)
    (Nat.lt_of_lt_of_le hl (digitLimit_shiftLeft_le (k := 0) (by decide)))

theorem representable_of_fields {e f : Nat} (he : e < 2047) (hf : f < 1 <<< 52) :
    Representable ((1 <<< 52 + f) <<< (e - 1)) := by
  have hm : 1 <<< 52 + f < digitLimit := by
    simp only [digitLimit, Nat.reduceShiftLeft] at *
    omega
  have hk : 53 + (e - 1) ≤ digitBound := by
    simp only [digitBound]
    omega
  exact .shiftLeft (Nat.le_of_lt hm)
    (Nat.lt_of_lt_of_le (shiftLeft_lt_shiftLeft hm _) (digitLimit_shiftLeft_le hk))

def ofBits (word : UInt64) : Binary64 :=
  let negative := decide (1 <<< 63 ≤ word.toNat)
  let exponent := word.toNat >>> 52 % 2048
  let fraction := word.toNat % 1 <<< 52
  have hf : fraction < 1 <<< 52 := Nat.mod_lt _ (by decide)
  if h : exponent < 2047 then
    if exponent = 0 then .finite negative fraction (representable_of_fraction hf)
    else .finite negative ((1 <<< 52 + fraction) <<< (exponent - 1)) (representable_of_fields h hf)
  else if fraction = 0 then .infinite negative
  else .nan

end Binary64

end BoundedScript
