import BoundedScript.Binary64.Rounding

/-! # Arithmetic of binary64 numbers

Each operation computes the exact result in units of 2⁻¹⁰⁷⁴ and rounds it once. Remainder and floor
are exact already. Powers are left to the machine's own function, whose last digit no short rule
describes.
-/

namespace BoundedScript.Binary64

def neg : Binary64 → Binary64
  | .nan => .nan
  | .infinite s => .infinite !s
  | .finite s units h => .finite (!s) units h

instance : Neg Binary64 := ⟨neg⟩

/-- An exact sum of zero is the positive zero unless both operands are negative. -/
def add : Binary64 → Binary64 → Binary64
  | .nan, _ | _, .nan => .nan
  | .infinite s, .infinite t => if s = t then .infinite s else .nan
  | .infinite s, .finite .. => .infinite s
  | .finite .., .infinite t => .infinite t
  | .finite s m _, .finite t n _ =>
    let sum := signedUnits s m + signedUnits t n
    ofUnits (if sum = 0 then s && t else decide (sum < 0)) sum.natAbs

instance : Add Binary64 := ⟨add⟩

def sub (x y : Binary64) : Binary64 := x + -y

instance : Sub Binary64 := ⟨sub⟩

def mul : Binary64 → Binary64 → Binary64
  | .nan, _ | _, .nan => .nan
  | .infinite s, .infinite t => .infinite (s ^^ t)
  | .infinite s, .finite t n _ => if n = 0 then .nan else .infinite (s ^^ t)
  | .finite s m _, .infinite t => if m = 0 then .nan else .infinite (s ^^ t)
  | .finite s m _, .finite t n _ => ofRatio (s ^^ t) (m * n) unitsPerOne

instance : Mul Binary64 := ⟨mul⟩

def div : Binary64 → Binary64 → Binary64
  | .nan, _ | _, .nan => .nan
  | .infinite _, .infinite _ => .nan
  | .infinite s, .finite t .. => .infinite (s ^^ t)
  | .finite s .., .infinite t => zero (s ^^ t)
  | .finite s m _, .finite t n _ =>
    if n = 0 then if m = 0 then .nan else .infinite (s ^^ t)
    else ofRatio (s ^^ t) (m * unitsPerOne) n

instance : Div Binary64 := ⟨div⟩

/-- The remainder of the quotient cut off toward zero. It has the sign of the dividend. -/
def rem : Binary64 → Binary64 → Binary64
  | .nan, _ | _, .nan => .nan
  | .infinite _, _ => .nan
  | .finite s m h, .infinite _ => .finite s m h
  | .finite s m _, .finite _ n _ => if n = 0 then .nan else ofUnits s (m % n)

instance : Mod Binary64 := ⟨rem⟩

/-- The greatest integer that is not above the number. -/
def floor : Binary64 → Binary64
  | .finite s units _ =>
    let whole := if s then (units + (unitsPerOne - 1)) / unitsPerOne else units / unitsPerOne
    ofUnits s (whole * unitsPerOne)
  | x => x

/-- A finite number without its fraction, as an integer. -/
def truncate : Binary64 → Int
  | .finite s units _ => signedUnits s (units / unitsPerOne)
  | _ => 0

def pow (x y : Binary64) : Binary64 :=
  ofBits (Float.pow (Float.ofBits x.toBits) (Float.ofBits y.toBits)).toBits

/-- The quotient rounded down to an integer, for a divisor that is not zero.

It is worked out from the remainder and not from the rounded quotient, so that it fits the
remainder: `1 // 0.1` is `9.0`, although `1 / 0.1` rounds to `10.0`. The division of the exact
multiple `x - r` by `y` may still be off by a last digit, which the last step mends. -/
def floorDiv (x y : Binary64) : Binary64 :=
  let r := x % y
  let q := (x - r) / y
  let q := if !r.sameValue (zero false) && y.isNegative != r.isNegative then q - ofInt 1 else q
  if q.isZero then zero (x / y).signBit
  else
    let f := q.floor
    if (q - f).compare? half == some .gt then f + ofInt 1 else f
where
  half := ofUnits false (unitsPerOne / 2)

end BoundedScript.Binary64
