import EntityStore.Proofs.Double.Underflow
import EntityStore.Schema.Range

/-!
# The range of doubles

A number is checked for the range of doubles after it was rounded to one. What is in range as it is written passes, and
with it what rounds to zero and what lies within an error of rounding of the bounds. Main statements:
`double_of_fitsDouble` and `nearDouble_of_double`.
-/
namespace EntityStore

namespace Double

variable {digits digits' : Nat} {exponent exponent' : Int}

theorem unsignedBits_ofDecimal_le_infinityBits (negative : Bool) (digits : Nat) (exponent : Int) :
    (ofDecimal negative digits exponent).unsignedBits ≤ infinityBits := by
  rcases ofDecimal_cases negative digits exponent with ⟨hbits, -⟩ | ⟨hbits, -⟩ | ⟨num, den, -, hbits, -⟩
  · rw [hbits]
    exact Nat.zero_le _
  · exact hbits.le
  · rw [hbits]
    exact roundUnits_le num den

/-- What is too large for the format is read as infinity. -/
theorem unsignedBits_ofDecimal_of_le (negative : Bool) (h : (2 : ℚ) ^ 1024 ≤ digits * 10 ^ exponent) :
    (ofDecimal negative digits exponent).unsignedBits = infinityBits := by
  rcases ofDecimal_cases negative digits exponent with ⟨-, hsmall⟩ | ⟨hbits, -⟩ | ⟨num, den, hden, hbits, hvalue⟩
  · have hone : (1 : ℚ) ≤ 2 ^ 1024 := one_le_pow₀ one_le_two
    have htiny : (1 : ℚ) / 2 ^ 54 < 1 := by norm_num
    have hlt := (hsmall.trans one_div_pow_le).trans_lt (htiny.trans_le hone)
    exact absurd h (not_le.mpr hlt)
  · exact hbits
  · have hden' : (0 : ℚ) < den := Nat.cast_pos.mpr hden
    rw [← hvalue, div_div, le_div_iff₀ (mul_pos hden' unitsPerOne_pos')] at h
    have hle : twoTo 1024 * unitsPerOne * den ≤ num * 1 := by
      rw [Nat.mul_assoc, Nat.mul_comm unitsPerOne, Nat.mul_one, twoTo_eq]
      exact_mod_cast h
    have htop : roundUnits (twoTo 1024 * unitsPerOne) 1 = infinityBits := by decide +kernel
    have hmono := roundUnits_le_roundUnits Nat.one_pos hden hle
    rw [htop] at hmono
    rw [hbits]
    exact Nat.le_antisymm (roundUnits_le num den) hmono

theorem unsignedBits_ofDecimal_mono (negative negative' : Bool)
    (h : (digits * 10 ^ exponent : ℚ) ≤ digits' * 10 ^ exponent') :
    (ofDecimal negative digits exponent).unsignedBits ≤ (ofDecimal negative' digits' exponent').unsignedBits := by
  rcases ofDecimal_cases negative digits exponent with ⟨hbits, -⟩ | ⟨-, hlarge⟩ | ⟨num, den, hden, hbits, hvalue⟩
  · rw [hbits]
    exact Nat.zero_le _
  · rw [unsignedBits_ofDecimal_of_le negative' (hlarge.trans h)]
    exact unsignedBits_ofDecimal_le_infinityBits negative digits exponent
  rcases ofDecimal_cases negative' digits' exponent' with
    ⟨-, hsmall⟩ | ⟨hbits', -⟩ | ⟨num', den', hden', hbits', hvalue'⟩
  · rw [(unsignedBits_ofDecimal_eq_zero_iff negative).mpr (h.trans hsmall)]
    exact Nat.zero_le _
  · rw [hbits']
    exact unsignedBits_ofDecimal_le_infinityBits negative digits exponent
  · have hpos : (0 : ℚ) < den := Nat.cast_pos.mpr hden
    have hpos' : (0 : ℚ) < den' := Nat.cast_pos.mpr hden'
    rw [← hvalue, ← hvalue', div_le_div_iff_of_pos_right unitsPerOne_pos', div_le_div_iff₀ hpos hpos'] at h
    rw [hbits, hbits']
    exact roundUnits_le_roundUnits hden hden' (by exact_mod_cast h)

theorem ofInt_eq_ofNumeral (n : Int) : ofInt n = ofNumeral ⟨n < 0, n.natAbs, 0⟩ := by
  by_cases hzero : n = 0
  · subst hzero
    decide +kernel
  · have hbounds : ¬ (decide (n.natAbs = 0) || decide ((0 : Int) < -(400 + n.natAbs.log2 : Int))) = true := by
      simp only [Bool.or_eq_true, decide_eq_true_eq]
      omega
    have hlarge : ¬ (400 : Int) < 0 := by decide
    rw [ofNumeral, ofDecimal, if_neg hbounds, if_neg hlarge, ofInt]
    congr 2
    exact (Nat.mul_one _).symm

variable {n : Decimal.Numeral}

theorem unsignedBits_ofNumeral_eq_zero_iff : (ofNumeral n).unsignedBits = 0 ↔ |n.value| ≤ 1 / 2 ^ 1075 := by
  rw [ofNumeral, unsignedBits_ofDecimal_eq_zero_iff, Decimal.Numeral.abs_value]

theorem magnitude_ofNumeral_eq_zero_iff : (ofNumeral n).magnitude = 0 ↔ |n.value| ≤ 1 / 2 ^ 1075 := by
  rw [magnitude, unitsOf_eq_zero_iff, unsignedBits_ofNumeral_eq_zero_iff]

/-- Of two numbers the greater is not read as less. -/
theorem magnitude_ofNumeral_mono {n' : Decimal.Numeral} (h : |n.value| ≤ |n'.value|) :
    (ofNumeral n).magnitude ≤ (ofNumeral n').magnitude := by
  rw [Decimal.Numeral.abs_value, Decimal.Numeral.abs_value] at h
  exact unitsOf_mono (unsignedBits_ofDecimal_mono _ _ h)

theorem abs_value_lt_of_magnitude_lt {n' : Decimal.Numeral} (h : (ofNumeral n).magnitude < (ofNumeral n').magnitude) :
    |n.value| < |n'.value| :=
  lt_of_not_ge fun hle => absurd h (Nat.not_lt.mpr (magnitude_ofNumeral_mono hle))

end Double

namespace Range

open Double

/-- Zero, or between the least and the greatest magnitude of a double. -/
def FitsDouble (value : ℚ) : Prop := value = 0 ∨ 223 / 10 ^ 310 ≤ |value| ∧ |value| ≤ 179 * 10 ^ 306

/-- The range of doubles but for errors of rounding: up to half of the least positive double a number rounds to zero,
and a few units in the seventeenth digit may lead to a bound. -/
def NearDouble (value : ℚ) : Prop :=
  |value| ≤ 1 / 2 ^ 1075 ∨
    22299999999999995 / 10 ^ 324 < |value| ∧ |value| < 17900000000000002 * 10 ^ 292

/-- The check in magnitudes. -/
theorem double_iff {x : Double} (h : x.isNaN = false) : Range.double x = true ↔
    x.magnitude = 0 ∨ doubleMin.magnitude ≤ x.magnitude ∧ x.magnitude ≤ doubleMax.magnitude := by
  have hmin : doubleMin.isNaN = false ∧ doubleMin.units = doubleMin.magnitude := by decide +kernel
  have hmax : doubleMax.isNaN = false ∧ doubleMax.units = doubleMax.magnitude := by decide +kernel
  simp only [Range.double, h, Bool.not_false, Bool.true_and, Bool.or_eq_true, Bool.and_eq_true, beq_iff_eq,
    le_iff hmin.1 (isNaN_abs h), le_iff (isNaN_abs h) hmax.1, units_abs h, hmin.2, hmax.2, Int.ofNat_le]

variable {n : Decimal.Numeral}

/-- What is in range as it is written passes. -/
theorem double_of_fitsDouble (h : FitsDouble n.value) : Range.double (ofNumeral n) = true := by
  rw [double_iff (isNaN_ofNumeral n)]
  rcases h with hzero | ⟨hmin, hmax⟩
  · left
    rw [magnitude_ofNumeral_eq_zero_iff, hzero, abs_zero]
    positivity
  · right
    have hleast : |(⟨false, 223, -310⟩ : Decimal.Numeral).value| = 223 / 10 ^ 310 :=
      Decimal.Numeral.abs_value_neg false 223 310
    have hgreatest : |(⟨false, 179, 306⟩ : Decimal.Numeral).value| = 179 * 10 ^ 306 :=
      Decimal.Numeral.abs_value_natCast false 179 306
    have hread : doubleMin = ofNumeral ⟨false, 223, -310⟩ := rfl
    have hread' : doubleMax = ofNumeral ⟨false, 179, 306⟩ := rfl
    rw [← hleast] at hmin
    rw [← hgreatest] at hmax
    rw [hread, hread']
    exact ⟨magnitude_ofNumeral_mono hmin, magnitude_ofNumeral_mono hmax⟩

/-- What passes is in range but for errors of rounding. -/
theorem nearDouble_of_double (h : Range.double (ofNumeral n) = true) : NearDouble n.value := by
  rcases (double_iff (isNaN_ofNumeral n)).mp h with hzero | ⟨hmin, hmax⟩
  · exact .inl (magnitude_ofNumeral_eq_zero_iff.mp hzero)
  · right
    constructor
    · have hbelow : (ofNumeral ⟨false, 22299999999999995, -324⟩).magnitude < doubleMin.magnitude := by decide +kernel
      have hvalue : |(⟨false, 22299999999999995, -324⟩ : Decimal.Numeral).value| = 22299999999999995 / 10 ^ 324 :=
        Decimal.Numeral.abs_value_neg false 22299999999999995 324
      rw [← hvalue]
      exact abs_value_lt_of_magnitude_lt (Nat.lt_of_lt_of_le hbelow hmin)
    · have habove : doubleMax.magnitude < (ofNumeral ⟨false, 17900000000000002, 292⟩).magnitude := by decide +kernel
      have hvalue : |(⟨false, 17900000000000002, 292⟩ : Decimal.Numeral).value| = 17900000000000002 * 10 ^ 292 :=
        Decimal.Numeral.abs_value_natCast false 17900000000000002 292
      rw [← hvalue]
      exact abs_value_lt_of_magnitude_lt (Nat.lt_of_le_of_lt hmax habove)

theorem double_ofInt_of_fitsDouble {n : Int} (h : FitsDouble n) : Range.double (ofInt n) = true := by
  rw [← Decimal.Numeral.value_ofInt n] at h
  rw [ofInt_eq_ofNumeral]
  exact double_of_fitsDouble h

theorem nearDouble_of_double_ofInt {n : Int} (h : Range.double (ofInt n) = true) : NearDouble n := by
  rw [ofInt_eq_ofNumeral] at h
  rw [← Decimal.Numeral.value_ofInt n]
  exact nearDouble_of_double h

end Range

end EntityStore
