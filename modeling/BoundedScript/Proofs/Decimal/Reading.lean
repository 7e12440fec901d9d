import BoundedScript.Decimal.Layout
import BoundedScript.Proofs.Binary64.Nearest
import Mathlib.Tactic.NormNum

/-!
# Reading decimal numbers

The shortest decimal of a number is chosen among those that read back as it, and where none of the
short ones does, all digits are kept. A layout writes the digits out in one of three shapes, and a
reader that knows nothing of layouts finds the same rational in each of them. Rounding sees only
this rational, so the text of a number reads as the number.
-/

namespace BoundedScript

namespace Decimal

open Binary64

/-! ### Values -/

/-- The rational that a decimal stands for. -/
def value (d : Decimal) : ℚ := d.coefficient * 10 ^ d.exponent

theorem denPower_pos (e : ℤ) : 0 < denPower e := Nat.pow_pos (by decide)

theorem cast_denPower_ne_zero (e : ℤ) : (denPower e : ℚ) ≠ 0 :=
  Nat.cast_ne_zero.mpr (denPower_pos e).ne'

theorem numPower_div_denPower (e : ℤ) : (numPower e : ℚ) / denPower e = 10 ^ e := by
  unfold numPower denPower
  rcases Int.le_total 0 e with h | h
  · have hneg : (-e).toNat = 0 := by omega
    have he : e = e.toNat := by omega
    rw [hneg]
    nth_rewrite 2 [he]
    rw [zpow_natCast]
    simp
  · have hpos : e.toNat = 0 := by omega
    have he : e = -((-e).toNat : ℤ) := by omega
    rw [hpos]
    nth_rewrite 2 [he]
    rw [zpow_neg, zpow_natCast]
    simp

/-- The quotient that is rounded when a decimal is read. -/
theorem quotient_eq_value (d : Decimal) :
    ((d.coefficient * numPower d.exponent * unitsPerOne : ℕ) : ℚ) / denPower d.exponent =
      d.value * unitsPerOne := by
  rw [value, ← numPower_div_denPower]
  push_cast
  ring

section

variable {d d' : Decimal} {negative negative' : Bool} {units : ℕ}

theorem toBinary64_congr (h : d.value = d'.value) :
    d.toBinary64 negative = d'.toBinary64 negative := by
  have hquotient := quotient_eq_value d
  rw [h, ← quotient_eq_value d', div_eq_div_iff (cast_denPower_ne_zero _) (cast_denPower_ne_zero _)]
    at hquotient
  exact ofRatio_congr negative (denPower_pos _) (denPower_pos _) (by exact_mod_cast hquotient)

/-- A decimal that is a number exactly reads as that number. -/
theorem toBinary64_of_value (h : Representable units) (hvalue : d.value * unitsPerOne = units) :
    d.toBinary64 negative = .finite negative units h := by
  have hnum : d.coefficient * numPower d.exponent * unitsPerOne = units * denPower d.exponent := by
    have hquotient := (quotient_eq_value d).trans hvalue
    rw [div_eq_iff (cast_denPower_ne_zero _)] at hquotient
    exact_mod_cast hquotient
  rw [toBinary64, hnum, ofRatio_mul negative h (denPower_pos _)]

theorem roundsTo_of_toBinary64 {h : Representable units}
    (hread : d.toBinary64 negative = .finite negative' units h) :
    RoundsTo (d.value * unitsPerOne) units := by
  rw [← quotient_eq_value, ← roundUnits_of_ofRatio hread]
  exact roundsTo_roundUnits _ (denPower_pos _)

/-- The sign has no part in whether a decimal reads back. -/
theorem toBinary64_of_readsBack (h : Representable units) (hread : readsBack units d = true) :
    d.toBinary64 negative = .finite negative units h := by
  unfold readsBack at hread
  cases hfinite : d.toBinary64 false with
  | finite negative' n hn =>
    rw [hfinite] at hread
    have hunits : roundUnits _ _ = n := roundUnits_of_ofRatio hfinite
    exact ofRatio_of_roundUnits negative h (hunits.trans (eq_of_beq hread))
  | _ =>
    rw [hfinite] at hread
    cases hread

end

/-! ### The shortest decimal -/

theorem value_trim (d : Decimal) : d.trim.value = d.value := by
  fun_induction trim d with
  | case1 d h ih =>
    have hcoefficient : (d.coefficient : ℚ) = (d.coefficient / 10 : ℕ) * 10 := by
      exact_mod_cast (Nat.div_mul_cancel (Nat.dvd_of_mod_eq_zero h.2)).symm
    rw [ih, value, value, hcoefficient, zpow_add_one₀ (by norm_num)]
    ring
  | case2 d h => rfl

/-- A power of two in the denominator is one of ten once the coefficient has as many fives. -/
theorem value_mul_fives (units k : ℕ) :
    value ⟨units * Nat.pow 5 k, -k⟩ * (1 <<< k : ℕ) = units := by
  have hpower : (5 : ℚ) ^ k * 2 ^ k = 10 ^ k := by
    rw [← mul_pow]
    norm_num
  have hne : (10 : ℚ) ^ k ≠ 0 := by positivity
  rw [value, Nat.pow_eq, Nat.one_shiftLeft, Nat.cast_mul, Nat.cast_pow, Nat.cast_pow, zpow_neg,
    zpow_natCast, mul_right_comm, mul_assoc (units : ℚ), Nat.cast_ofNat, Nat.cast_ofNat, hpower,
    mul_inv_cancel_right₀ hne]

theorem value_exact (units : ℕ) : (exact units).value * unitsPerOne = units := by
  have hplaces : (-1074 : ℤ) = -(1074 : ℕ) := rfl
  rw [exact, value_trim, unitsPerOne, hplaces]
  generalize 1074 = k
  exact value_mul_fives units k

/-- The shortest decimal of a number reads as the number. -/
theorem toBinary64_shortest (negative : Bool) {units : ℕ} (h : Representable units) :
    (shortest units).toBinary64 negative = .finite negative units h := by
  unfold shortest
  split
  · next hzero =>
    apply toBinary64_of_value
    simp [value, hzero]
  · dsimp only
    cases hfound : (List.range 17).findSome? fun n : ℕ =>
        (neighbours units (decade units - n)).find? (readsBack units) with
    | none =>
      rw [Option.getD_none]
      exact toBinary64_of_value h (value_exact units)
    | some d =>
      rw [Option.getD_some]
      obtain ⟨n, -, hn⟩ := List.exists_of_findSome?_eq_some hfound
      exact toBinary64_of_readsBack h (List.find?_some hn)

/-! ### Numerals -/

/-- There is nothing but decimal digits. -/
def IsDigits (cs : List Char) : Prop := ∀ c ∈ cs, c.isDigit = true

instance (cs : List Char) : Decidable (IsDigits cs) :=
  inferInstanceAs (Decidable (∀ c ∈ cs, c.isDigit = true))

/-- The number that a run of digits denotes. -/
def readDigits? (digits : List Char) : Option ℕ :=
  if digits ≠ [] ∧ IsDigits digits then some (Nat.ofDigitChars 10 digits 0) else none

/-- The power of ten that an `e` announces, with its sign. Without an `e` it is zero. -/
def readExponent? : List Char → Option ℤ
  | [] => some 0
  | 'e' :: '+' :: digits => (readDigits? digits).map fun n : ℕ => (n : ℤ)
  | 'e' :: '-' :: digits => (readDigits? digits).map fun n : ℕ => -(n : ℤ)
  | _ => none

/-- The digits after a point, if there is one, and what follows them. -/
def splitFraction : List Char → List Char × List Char
  | '.' :: cs => (cs.takeWhile Char.isDigit, cs.dropWhile Char.isDigit)
  | cs => ([], cs)

/-- A decimal number without a sign: digits, some of them maybe after a point, and maybe a power of
ten. Every digit after the point counts a tenth of the one before. -/
def readMagnitude? (cs : List Char) : Option Decimal :=
  let whole := cs.takeWhile Char.isDigit
  let (fraction, rest) := splitFraction (cs.dropWhile Char.isDigit)
  if whole = [] then none
  else
    (readExponent? rest).map fun exponent =>
      ⟨Nat.ofDigitChars 10 (whole ++ fraction) 0, exponent - fraction.length⟩

/-- A decimal number: whether there is a minus sign, and the number behind it. -/
def read? : List Char → Option (Bool × Decimal)
  | '-' :: cs => (readMagnitude? cs).map (true, ·)
  | cs => (readMagnitude? cs).map (false, ·)

section

variable {whole fraction tail cs : List Char} {exponent : ℤ} {d : Decimal}

theorem IsDigits.append (hwhole : IsDigits whole) (hfraction : IsDigits fraction) :
    IsDigits (whole ++ fraction) :=
  List.forall_mem_append.mpr ⟨hwhole, hfraction⟩

theorem isDigits_toDigits (n : ℕ) : IsDigits (Nat.toDigits 10 n) :=
  fun _ h => Nat.isDigit_of_mem_toDigits (by decide) (by decide) h

theorem isDigits_replicate (n : ℕ) : IsDigits (List.replicate n '0') := by
  intro c h
  rw [List.eq_of_mem_replicate h]
  rfl

theorem readExponent?_stops (h : readExponent? tail = some exponent) :
    tail.takeWhile Char.isDigit = [] ∧ tail.dropWhile Char.isDigit = tail ∧
      splitFraction tail = ([], tail) := by
  unfold readExponent? at h
  split at h
  · exact ⟨rfl, rfl, rfl⟩
  · exact ⟨rfl, rfl, rfl⟩
  · exact ⟨rfl, rfl, rfl⟩
  · cases h

theorem readMagnitude?_whole (hne : whole ≠ []) (hwhole : IsDigits whole)
    (h : readExponent? tail = some exponent) :
    readMagnitude? (whole ++ tail) = some ⟨Nat.ofDigitChars 10 whole 0, exponent⟩ := by
  obtain ⟨htake, hdrop, hsplit⟩ := readExponent?_stops h
  simp [readMagnitude?, List.takeWhile_append_of_pos hwhole, List.dropWhile_append_of_pos hwhole,
    htake, hdrop, hsplit, hne, h]

theorem readMagnitude?_point (hne : whole ≠ []) (hwhole : IsDigits whole)
    (hfraction : IsDigits fraction) (h : readExponent? tail = some exponent) :
    readMagnitude? (whole ++ '.' :: (fraction ++ tail)) =
      some ⟨Nat.ofDigitChars 10 (whole ++ fraction) 0, exponent - fraction.length⟩ := by
  obtain ⟨htake, hdrop, -⟩ := readExponent?_stops h
  have hpoint : Char.isDigit '.' = false := rfl
  simp [readMagnitude?, List.takeWhile_append_of_pos hwhole, List.dropWhile_append_of_pos hwhole,
    List.takeWhile_append_of_pos hfraction, List.dropWhile_append_of_pos hfraction, splitFraction,
    htake, hdrop, hpoint, hne, h]

theorem readMagnitude?_decimals (hne : whole ≠ []) (hwhole : IsDigits whole)
    (hfraction : IsDigits fraction) :
    readMagnitude? (whole ++ '.' :: fraction) =
      some ⟨Nat.ofDigitChars 10 (whole ++ fraction) 0, -fraction.length⟩ := by
  have hnone : readExponent? [] = some 0 := rfl
  have hread := readMagnitude?_point hne hwhole hfraction hnone
  rwa [List.append_nil, Int.zero_sub] at hread

theorem read?_of_readMagnitude? (negative : Bool) (h : readMagnitude? cs = some d) :
    read? ((if negative then ['-'] else []) ++ cs) = some (negative, d) := by
  cases negative with
  | true => simp [read?, h]
  | false =>
    have hminus : ∀ cs', cs ≠ '-' :: cs' := by
      rintro cs' rfl
      simp [readMagnitude?, show Char.isDigit '-' = false from rfl] at h
    simp [read?.eq_2 cs hminus, h]

end

/-! ### Layouts -/

section

variable (d : Decimal)

theorem digits_ne_nil : d.digits ≠ [] := Nat.toDigits_ne_nil

theorem isDigits_digits : IsDigits d.digits := isDigits_toDigits d.coefficient

theorem ofDigitChars_digits : Nat.ofDigitChars 10 d.digits 0 = d.coefficient :=
  Nat.ofDigitChars_ten_toDigits

theorem ofDigitChars_replicate_append (n : ℕ) (cs : List Char) :
    Nat.ofDigitChars 10 (List.replicate n '0' ++ cs) 0 = Nat.ofDigitChars 10 cs 0 := by
  rw [Nat.ofDigitChars_append, Nat.ofDigitChars_replicate_zero, Nat.mul_zero]

theorem readExponent?_exponentText (e : ℤ) : readExponent? ('e' :: exponentText e) = some e := by
  have hdigits : readDigits? (List.replicate (2 - (Nat.toDigits 10 e.natAbs).length) '0' ++
      Nat.toDigits 10 e.natAbs) = some e.natAbs := by
    rw [readDigits?, if_pos, ofDigitChars_replicate_append, Nat.ofDigitChars_ten_toDigits]
    exact ⟨by simp [Nat.toDigits_ne_nil], (isDigits_replicate _).append (isDigits_toDigits _)⟩
  unfold exponentText
  split
  · next h =>
    rw [readExponent?, hdigits, Option.map_some, Int.ofNat_natAbs_of_nonpos h.le, Int.neg_neg]
  · next h =>
    rw [readExponent?, hdigits, Option.map_some, Int.natAbs_of_nonneg (Int.not_lt.mp h)]

/-- One digit stands before the point, so the exponent is that of the leading digit. -/
theorem readMagnitude?_scientific : readMagnitude? d.scientific = some d := by
  have htail := readExponent?_exponentText d.leadingExponent
  have hlength : 0 < d.digits.length := List.length_pos_of_ne_nil d.digits_ne_nil
  unfold scientific
  dsimp only
  split
  · next hone =>
    have htake : d.digits.take 1 = d.digits := List.take_of_length_le hone.le
    have hdrop : d.digits.drop 1 = [] := List.drop_of_length_le hone.le
    have hexponent : d.leadingExponent = d.exponent := by
      rw [leadingExponent, hone]
      omega
    rw [htake, hdrop, List.append_nil, List.append_nil,
      readMagnitude?_whole d.digits_ne_nil d.isDigits_digits htail, ofDigitChars_digits, hexponent]
  · have hexponent : d.leadingExponent - (d.digits.drop 1).length = d.exponent := by
      rw [leadingExponent, List.length_drop]
      omega
    rw [List.append_assoc, List.append_assoc, List.singleton_append,
      readMagnitude?_point _ _ _ htail, List.take_append_drop, ofDigitChars_digits, hexponent]
    · simp [d.digits_ne_nil]
    · exact fun c hc => d.isDigits_digits c (List.mem_of_mem_take hc)
    · exact fun c hc => d.isDigits_digits c (List.mem_of_mem_drop hc)

/-- All places after the point are written, so the digits are those of the coefficient after some
zeros. -/
theorem readMagnitude?_positional_of_neg (wholeTail : List Char) (h : d.exponent < 0) :
    readMagnitude? (d.positional wholeTail) = some d := by
  unfold positional
  rw [if_neg (by omega)]
  dsimp only
  generalize hplaces : (-d.exponent).toNat = places
  generalize hpadded : List.replicate (places + 1 - d.digits.length) '0' ++ d.digits = padded
  have hdigits : IsDigits padded := hpadded ▸ (isDigits_replicate _).append d.isDigits_digits
  have hnumber : Nat.ofDigitChars 10 padded 0 = d.coefficient := by
    rw [← hpadded, ofDigitChars_replicate_append, ofDigitChars_digits]
  have hlength : places < padded.length := by
    rw [← hpadded, List.length_append, List.length_replicate]
    omega
  have hexponent : -((padded.drop (padded.length - places)).length : ℤ) = d.exponent := by
    rw [List.length_drop]
    omega
  rw [readMagnitude?_decimals, List.take_append_drop, hnumber, hexponent]
  · rw [Ne, List.take_eq_nil_iff, ← List.length_eq_zero_iff]
    omega
  · exact fun c hc => hdigits c (List.mem_of_mem_take hc)
  · exact fun c hc => hdigits c (List.mem_of_mem_drop hc)

/-- A whole number is followed by a point and a zero, so it is read as a number of tenths. -/
theorem readMagnitude?_positional_of_nonneg (h : 0 ≤ d.exponent) :
    readMagnitude? (d.positional ['.', '0']) =
      some ⟨10 * (10 ^ d.exponent.toNat * d.coefficient), -1⟩ := by
  have hne : d.digits ++ List.replicate d.exponent.toNat '0' ≠ [] := by simp [d.digits_ne_nil]
  have hzero : IsDigits ['0'] := isDigits_replicate 1
  have hread := readMagnitude?_decimals hne (d.isDigits_digits.append (isDigits_replicate _)) hzero
  rw [positional, if_pos h, hread, Nat.ofDigitChars_append, Nat.ofDigitChars_append,
    ofDigitChars_digits, Nat.ofDigitChars_replicate_zero]
  rfl

theorem value_tenths (h : 0 ≤ d.exponent) :
    value ⟨10 * (10 ^ d.exponent.toNat * d.coefficient), -1⟩ = d.value := by
  have hpower : (10 : ℚ) ^ d.exponent = 10 ^ d.exponent.toNat := by
    rw [← zpow_natCast, Int.toNat_of_nonneg h]
  rw [value, value, hpower]
  push_cast
  ring

/-- In every shape that a layout gives it, a decimal reads as the same number. -/
theorem exists_readMagnitude?_write {layout : Layout} (htail : layout.wholeTail = ['.', '0']) :
    ∃ d', readMagnitude? (layout.write d) = some d' ∧ d'.value = d.value := by
  unfold Layout.write
  split
  · rw [htail]
    rcases Int.lt_or_le d.exponent 0 with h | h
    · exact ⟨d, d.readMagnitude?_positional_of_neg _ h, rfl⟩
    · exact ⟨_, d.readMagnitude?_positional_of_nonneg h, d.value_tenths h⟩
  · exact ⟨d, d.readMagnitude?_scientific, rfl⟩

end

end Decimal

/-- The text of a finite number reads as that number. -/
theorem Binary64.exists_read?_text (layout : Decimal.Layout)
    (htail : layout.wholeTail = ['.', '0']) (negative : Bool) {units : ℕ} (h : Representable units) :
    ∃ d, Decimal.read? ((finite negative units h).text layout).toList = some (negative, d) ∧
      d.toBinary64 negative = .finite negative units h := by
  obtain ⟨d, hread, hvalue⟩ := (Decimal.shortest units).exists_readMagnitude?_write htail
  refine ⟨d, ?_, ?_⟩
  · rw [text, String.toList_ofList]
    exact Decimal.read?_of_readMagnitude? negative hread
  · rw [Decimal.toBinary64_congr hvalue, Decimal.toBinary64_shortest]

end BoundedScript
