import BoundedScript.Proofs.Decimal.Reading
import BoundedScript.Value

/-!
# Results are told apart by their texts

A text that reads as a decimal number is an integer or a real, and a point or an `e` tells which.
All other texts are words. So a value can be found again from its text, and two values with the same
text are the same, down to the sign of a zero. Only a `nan` has no value to be found.
-/

namespace BoundedScript

namespace Binary64

/-! ### Words of 64 bits -/

theorem magnitudeBits_of_fraction {fraction : ℕ} (h : fraction < 1 <<< 52) :
    magnitudeBits fraction = fraction := by
  have hlimit : fraction < digitLimit <<< 0 := h.trans (by decide)
  have hgap : gap fraction = 0 := Nat.le_zero.mp (gap_le hlimit)
  rw [magnitudeBits, hgap, Nat.zero_shiftLeft, Nat.shiftRight_zero, Nat.zero_add]

theorem gap_of_fields {exponent fraction : ℕ} (h : fraction < 1 <<< 52) :
    gap ((1 <<< 52 + fraction) <<< exponent) = exponent := by
  rw [Nat.one_shiftLeft] at h ⊢
  apply Nat.le_antisymm
  · apply gap_le
    apply shiftLeft_lt_shiftLeft
    rw [digitLimit, Nat.one_shiftLeft]
    omega
  · have hlog : 52 + exponent ≤ ((2 ^ 52 + fraction) <<< exponent).log2 := by
      rw [Nat.le_log2 (by simp [Nat.shiftLeft_eq]), Nat.shiftLeft_eq, pow_add]
      exact Nat.mul_le_mul_right _ (Nat.le_add_right _ _)
    rw [gap]
    omega

theorem magnitudeBits_of_fields {exponent fraction : ℕ} (hpos : exponent ≠ 0)
    (h : fraction < 1 <<< 52) :
    magnitudeBits ((1 <<< 52 + fraction) <<< (exponent - 1)) = exponent * 2 ^ 52 + fraction := by
  rw [magnitudeBits, gap_of_fields h, Nat.shiftLeft_shiftRight, Nat.one_shiftLeft, Nat.shiftLeft_eq]
  omega

theorem bits_of_magnitude {word : UInt64} {magnitude : ℕ}
    (h : magnitude = word.toNat >>> 52 % 2048 * 2 ^ 52 + word.toNat % 1 <<< 52) :
    toBits.bits (decide (1 <<< 63 ≤ word.toNat)) magnitude = word := by
  have hword : word.toNat < 2 ^ 64 := word.toNat_lt
  have hsum : (if decide (1 <<< 63 ≤ word.toNat) = true then 1 <<< 63 else 0) + magnitude =
      word.toNat := by
    rw [h, Nat.shiftRight_eq_div_pow, Nat.one_shiftLeft, Nat.one_shiftLeft]
    simp only [decide_eq_true_iff]
    split <;> omega
  rw [toBits.bits, hsum, UInt64.ofNat_toNat]

/-- A number keeps all bits of the word that it comes from. -/
theorem toBits_ofBits {word : UInt64} (h : ofBits word ≠ .nan) : (ofBits word).toBits = word := by
  have hfraction : word.toNat % 1 <<< 52 < 1 <<< 52 := Nat.mod_lt _ (by decide)
  rw [ofBits] at h ⊢
  split
  · next hlt =>
    split
    · next hzero =>
      apply bits_of_magnitude
      rw [magnitudeBits_of_fraction hfraction, hzero, Nat.zero_mul, Nat.zero_add]
    · next hpos => exact bits_of_magnitude (magnitudeBits_of_fields hpos hfraction)
  · next hge =>
    split
    · next hzero =>
      apply bits_of_magnitude
      rw [hzero]
      omega
    · next hne =>
      rw [dif_neg hge, if_neg hne] at h
      exact absurd rfl h

end Binary64

/-- Every shape of a real has a point or announces a power of ten. -/
theorem Decimal.mark_mem_write (d : Decimal) {layout : Layout}
    (htail : layout.wholeTail = ['.', '0']) : '.' ∈ layout.write d ∨ 'e' ∈ layout.write d := by
  unfold Layout.write
  split
  · left
    unfold positional
    split <;> simp [htail]
  · right
    simp [scientific]

namespace Value

open Binary64

/-! ### Texts of numbers -/

theorem toList_text_integer (n : Integer64) :
    (integer n).text.toList =
      (if decide (n.toInt < 0) then ['-'] else []) ++ Nat.toDigits 10 n.toInt.natAbs := by
  change n.toInt.repr.toList = _
  rw [Int.repr_eq_if]
  split
  · next h =>
    have hsign : ¬ n.toInt < 0 := by omega
    have habs : n.toInt.toNat = n.toInt.natAbs := by omega
    simp [hsign, habs]
  · next h =>
    have hsign : n.toInt < 0 := by omega
    have habs : (-n.toInt).toNat = n.toInt.natAbs := by omega
    simp [hsign, habs]

theorem read?_text_integer (n : Integer64) :
    Decimal.read? (integer n).text.toList =
      some (decide (n.toInt < 0), ⟨n.toInt.natAbs, 0⟩) := by
  have hnone : Decimal.readExponent? [] = some 0 := rfl
  have hread := Decimal.readMagnitude?_whole Nat.toDigits_ne_nil
    (Decimal.isDigits_toDigits n.toInt.natAbs) hnone
  rw [List.append_nil, Nat.ofDigitChars_ten_toDigits] at hread
  rw [toList_text_integer]
  exact Decimal.read?_of_readMagnitude? _ hread

theorem mark_notMem_text_integer (n : Integer64) :
    ¬ ('.' ∈ (integer n).text.toList ∨ 'e' ∈ (integer n).text.toList) := by
  have hdigit {c : Char} (hc : c.isDigit = false) (hminus : c ≠ '-') :
      c ∉ (integer n).text.toList := by
    rw [toList_text_integer, List.mem_append]
    rintro (h | h)
    · split at h
      · exact hminus (List.mem_singleton.mp h)
      · cases h
    · rw [Decimal.isDigits_toDigits _ c h] at hc
      cases hc
  rw [not_or]
  exact ⟨hdigit rfl (by decide), hdigit rfl (by decide)⟩

theorem exists_read?_text_finite (negative : Bool) {units : ℕ} (h : Representable units) :
    ∃ d, Decimal.read? (real (.finite negative units h)).text.toList = some (negative, d) ∧
      d.toBinary64 negative = .finite negative units h :=
  exists_read?_text layout rfl negative h

theorem mark_mem_text_finite (negative : Bool) {units : ℕ} (h : Representable units) :
    '.' ∈ (real (.finite negative units h)).text.toList ∨
      'e' ∈ (real (.finite negative units h)).text.toList := by
  rw [text, Binary64.text, String.toList_ofList, List.mem_append, List.mem_append]
  exact ((Decimal.shortest units).mark_mem_write rfl).imp .inr .inr

/-! ### Finding a value again -/

/-- The values whose texts are words. -/
def named : List Value :=
  [boolean true, boolean false, real (.infinite false), real (.infinite true)]

/-- The value that a text is the text of. -/
def ofText? (cs : List Char) : Option Value :=
  match Decimal.read? cs with
  | some (negative, d) =>
    if '.' ∈ cs ∨ 'e' ∈ cs then some (real (d.toBinary64 negative))
    else (Integer64.ofInt? (signedUnits negative d.coefficient)).map integer
  | none => named.find? fun v => v.text.toList = cs

section

variable {cs : List Char} {negative : Bool} {d : Decimal}
  (hread : Decimal.read? cs = some (negative, d))

include hread

theorem ofText?_of_mark (hmark : '.' ∈ cs ∨ 'e' ∈ cs) :
    ofText? cs = some (real (d.toBinary64 negative)) := by
  simp only [ofText?, hread, if_pos hmark]

theorem ofText?_of_not_mark (hmark : ¬ ('.' ∈ cs ∨ 'e' ∈ cs)) :
    ofText? cs = (Integer64.ofInt? (signedUnits negative d.coefficient)).map integer := by
  simp only [ofText?, hread, if_neg hmark]

end

theorem ofText?_text {v : Value} (h : v ≠ .real .nan) : ofText? v.text.toList = some v := by
  cases v with
  | integer n =>
    rw [ofText?_of_not_mark (read?_text_integer n) (mark_notMem_text_integer n),
      signedUnits_natAbs, Integer64.ofInt?_toInt, Option.map_some]
  | boolean b => cases b <;> rfl
  | real x =>
    cases x with
    | nan => exact absurd rfl h
    | infinite negative => cases negative <;> rfl
    | finite negative units hunits =>
      obtain ⟨d, hread, hvalue⟩ := exists_read?_text_finite negative hunits
      rw [ofText?_of_mark hread (mark_mem_text_finite negative hunits), hvalue]

theorem text_injective {v w : Value} (hv : v ≠ .real .nan) (hw : w ≠ .real .nan)
    (h : v.text = w.text) : v = w := by
  have hsome : some v = some w := by rw [← ofText?_text hv, ← ofText?_text hw, h]
  exact Option.some.inj hsome

theorem text_real_ne_text_integer (x : Binary64) (n : Integer64) :
    (real x).text ≠ (integer n).text := by
  intro h
  by_cases hx : x = .nan
  · have hread := read?_text_integer n
    rw [← h, hx] at hread
    cases hread
  · have heq := text_injective (fun hreal => hx (real.inj hreal)) (by simp) h
    cases heq

/-- Results are told apart by their texts: no two values other than `nan` have the same text, nor
have two words of bits, and no real has the text of an integer. The text of a finite real is a
decimal number, and the real is the nearest to it. -/
theorem texts_tell_results_apart :
    (∀ v w : Value, v ≠ .real .nan → w ≠ .real .nan → v.text = w.text → v = w) ∧
    (∀ a b : UInt64, ofBits a ≠ .nan → ofBits b ≠ .nan →
      (real (ofBits a)).text = (real (ofBits b)).text → a = b) ∧
    (∀ x n, (real x).text ≠ (integer n).text) ∧
    ∀ negative units h, ∃ d,
      Decimal.read? (real (.finite negative units h)).text.toList = some (negative, d) ∧
        d.toBinary64 negative = .finite negative units h ∧
        RoundsTo (d.value * unitsPerOne) units := by
  refine ⟨fun v w => text_injective, ?_, text_real_ne_text_integer, ?_⟩
  · intro a b ha hb h
    have heq := text_injective (fun hreal => ha (real.inj hreal)) (fun hreal => hb (real.inj hreal)) h
    rw [← toBits_ofBits ha, ← toBits_ofBits hb, real.inj heq]
  · intro negative units h
    obtain ⟨d, hread, hvalue⟩ := exists_read?_text_finite negative h
    exact ⟨d, hread, hvalue, Decimal.roundsTo_of_toBinary64 hvalue⟩

/-- 10¹⁶, the first whole real with a power of ten in its text, comes from an integer and from its
bits alike. The two zeros differ in their texts, and so does a whole real from the integer. -/
theorem equal_texts_of_one_real :
    let large : Value := .real (.ofInt 10000000000000000)
    let word : UInt64 := 0x4341c37937e08000
    large.text = "1e+16" ∧ (real (.ofBits word)).text = "1e+16" ∧ large = .real (.ofBits word) ∧
      (real (.ofBits 0x8000000000000000)).text ≠ (real (.ofBits 0)).text ∧
      (real (.ofInt 2)).text ≠ (integer ⟨2, by decide, by decide⟩).text := by
  intro large word
  obtain ⟨hvalues, hwords, hkinds, -⟩ := texts_tell_results_apart
  have hlarge : large.text = "1e+16" := by decide +kernel
  have hword : (real (.ofBits word)).text = "1e+16" := by decide +kernel
  have hsame : large = .real (.ofBits word) :=
    hvalues _ _ (by decide +kernel) (by decide +kernel) (hlarge.trans hword.symm)
  refine ⟨hlarge, hword, hsame, ?_, hkinds _ _⟩
  intro hzeros
  have heq := hwords 0x8000000000000000 0 (by decide +kernel) (by decide +kernel) hzeros
  exact absurd heq (by decide)

end Value

end BoundedScript
