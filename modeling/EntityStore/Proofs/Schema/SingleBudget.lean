import EntityStore.Proofs.Double.Rounding
import EntityStore.Proofs.Filter.NumericWord
import Mathlib.Data.Rat.Cast.Order

/-!
# The digits of singles with an exponent

A number with an exponent is checked for its digits by its value: as a double, it is scaled by `10 ^ 5` and compared
with the nearest integer, with a tolerance of a millionth. All numbers of at most five digits on either side of the
point pass, and with them those that are very near to one. Main statement: `singleText_iff_of_exponent`.
-/
namespace EntityStore

namespace Range

open Double

variable {x : Double}

/-! ## The check in units -/

/-- The bits of the value scaled by `10 ^ 5`. -/
def scaledBits (x : Double) : Nat := roundUnits (x.magnitude * 100000) 1

/-- The integer nearest to the number with these bits. -/
def nearestWhole (bits : Nat) : Nat := (2 * unitsOf bits + unitsPerOne) / (2 * unitsPerOne)

/-- How many units the number with these bits is away from the nearest integer. -/
def distance (bits : Nat) : Nat := ((unitsOf bits : Int) - nearestWhole bits * unitsPerOne).natAbs

/-- The tolerance in units. -/
def tolerance : Nat := (Double.ofDecimal false 1 (-6)).magnitude

/-- The limit and the scale are `10 ^ 5` exactly. -/
theorem scale_spec : (Double.ofDecimal false 1 singleDigits).isNaN = false ∧
    (Double.ofDecimal false 1 singleDigits).negative = false ∧
    (Double.ofDecimal false 1 singleDigits).magnitude = 100000 * unitsPerOne := by
  decide +kernel

/-- The tolerance lies between `2 ^ -20` and `1.1 * 10 ^ -6`. -/
theorem tolerance_spec : (Double.ofDecimal false 1 (-6)).unsignedBits < infinityBits ∧
    (Double.ofDecimal false 1 (-6)).negative = false ∧
    twoTo 1054 < tolerance ∧ 10000000 * tolerance ≤ 11 * unitsPerOne := by
  decide +kernel

theorem mul_scale (h : x.isFinite = true) :
    x.abs.mul (.ofDecimal false 1 singleDigits) = withSign false (scaledBits x) := by
  have hbits : x.unsignedBits ≤ infinityBits := by
    simp only [isFinite, decide_eq_true_eq] at h
    omega
  obtain ⟨_, hsign, hscale⟩ := scale_spec
  have hcancel := @roundUnits_mul (x.magnitude * 100000) 1 unitsPerOne unitsPerOne_pos
  rw [Nat.one_mul] at hcancel
  rw [Double.mul, hscale, hsign, Double.abs, negative_withSign _ hbits, magnitude_withSign _ hbits, ofUnits,
    ← Nat.mul_assoc, scaledBits]
  exact congrArg (withSign false) hcancel

theorem scaled_le (h : x.magnitude < 100000 * unitsPerOne) : unitsOf (scaledBits x) ≤ 10000000000 * unitsPerOne := by
  have hle : x.magnitude * 100000 ≤ 10000000000 * unitsPerOne := by omega
  have hmono := unitsOf_mono (roundUnits_mono hle 1)
  rwa [unitsOf_roundUnits_integer (by decide)] at hmono

theorem units_round {bits : Nat} (hbits : bits ≤ infinityBits) (h : nearestWhole bits ≤ twoTo 53) :
    (withSign false bits).round.units = nearestWhole bits * unitsPerOne := by
  rw [Double.round, ofUnits, negative_withSign _ hbits, magnitude_withSign _ hbits,
    units_withSign _ (roundUnits_le _ _)]
  exact congrArg Int.ofNat (unitsOf_roundUnits_integer h)

/-- A finite value is below `10 ^ 5`, and its multiple is nearer to an integer than the tolerance. -/
theorem singleValue_iff (h : x.isFinite = true) : singleValue x = true ↔
    x.magnitude < 100000 * unitsPerOne ∧ unitsOf (roundUnits (distance (scaledBits x)) 1) < tolerance := by
  have hnan := isNaN_of_isFinite h
  obtain ⟨hscaleNaN, hscaleSign, hscale⟩ := scale_spec
  obtain ⟨htoleranceFinite, htoleranceSign, _, _⟩ := tolerance_spec
  have htoleranceNaN := isNaN_of_isFinite (decide_eq_true htoleranceFinite)
  have hbelow : x.abs.lt (.ofDecimal false 1 singleDigits) = true ↔ x.magnitude < 100000 * unitsPerOne := by
    rw [Double.lt_iff (isNaN_abs hnan) hscaleNaN, units_abs hnan, units_of_not_negative hscaleSign, hscale,
      Int.ofNat_lt]
  simp only [singleValue, h, Bool.true_and, Bool.and_eq_true, hbelow, mul_scale h]
  refine and_congr_right fun hmagnitude => ?_
  have hbits : scaledBits x ≤ infinityBits := roundUnits_le _ _
  have hwhole : nearestWhole (scaledBits x) ≤ twoTo 53 := by
    have hscaled := scaled_le hmagnitude
    have hpos := unitsPerOne_pos
    have hlt : nearestWhole (scaledBits x) < 10000000001 := by
      rw [nearestWhole, Nat.div_lt_iff_lt_mul (by omega)]
      omega
    have htop : 10000000001 ≤ twoTo 53 := by decide
    omega
  rw [Double.sub, units_round hbits hwhole, units_withSign _ hbits, ofUnits,
    Double.lt_iff (isNaN_abs (isNaN_withSign _ (roundUnits_le _ _))) htoleranceNaN,
    units_of_not_negative htoleranceSign, units_abs (isNaN_withSign _ (roundUnits_le _ _)),
    magnitude_withSign _ (roundUnits_le _ _)]
  exact Int.ofNat_lt

/-! ## The check in values -/

theorem size_mul_unitsPerOne (bits : Nat) : size bits * unitsPerOne = unitsOf bits :=
  div_mul_cancel₀ _ unitsPerOne_pos'.ne'

theorem magnitude_lt_iff (x : Double) (c : Nat) :
    x.magnitude < c * unitsPerOne ↔ size x.unsignedBits < c := by
  rw [size, div_lt_iff₀ unitsPerOne_pos', magnitude]
  norm_cast

/-- An integer that is near is the nearest one. -/
theorem distance_le {bits k : Nat} (h : |size bits - k| ≤ 1 / 2 ^ 20) : distance bits ≤ twoTo 1054 := by
  have hunits : unitsPerOne = twoTo 1054 * twoTo 20 := twoTo_add 1054 20
  have htwenty : twoTo 20 = 1048576 := by decide
  rw [htwenty] at hunits
  have hpos := twoTo_pos 1054
  have hplace : (1 / 2 ^ 20 : ℚ) * unitsPerOne = twoTo 1054 := by
    rw [hunits, Nat.cast_mul, Nat.cast_ofNat, mul_left_comm]
    norm_num only
    exact mul_one _
  have hbound : ∀ a b : ℚ, a - b ≤ 1 / 2 ^ 20 → a * unitsPerOne ≤ b * unitsPerOne + twoTo 1054 := by
    intro a b hab
    rw [← hplace, ← add_mul]
    exact mul_le_mul_of_nonneg_right (by linarith) unitsPerOne_pos'.le
  obtain ⟨hhigh, hlow⟩ := abs_sub_le_iff.mp h
  have hhigh' : unitsOf bits ≤ k * unitsPerOne + twoTo 1054 := by
    have hle := hbound _ _ hhigh
    rw [size_mul_unitsPerOne] at hle
    exact_mod_cast hle
  have hlow' : k * unitsPerOne ≤ unitsOf bits + twoTo 1054 := by
    have hle := hbound _ _ hlow
    rw [size_mul_unitsPerOne] at hle
    exact_mod_cast hle
  have hwhole : nearestWhole bits = k := by
    rw [nearestWhole]
    apply Nat.div_eq_of_lt_le
    · rw [Nat.mul_left_comm]
      omega
    · rw [Nat.mul_left_comm, Nat.succ_mul k]
      omega
  rw [distance, hwhole]
  have hproduct : (k : Int) * unitsPerOne = ((k * unitsPerOne : Nat) : Int) := (Int.natCast_mul _ _).symm
  rw [hproduct]
  omega

theorem singleValue_of_near (h : x.isFinite = true) (hbelow : size x.unsignedBits < 100000) {k : Nat}
    (hnear : |size (scaledBits x) - k| ≤ 1 / 2 ^ 20) : singleValue x = true := by
  have hbelow' : x.magnitude < 100000 * unitsPerOne := (magnitude_lt_iff x 100000).mpr (by exact_mod_cast hbelow)
  have hsplit : twoTo 1054 = twoTo 52 * twoTo 1002 := twoTo_add 52 1002
  have hexact : unitsOf (roundUnits (twoTo 1054) 1) = twoTo 1054 := by
    rw [hsplit]
    exact unitsOf_roundUnits (Nat.le_refl _) (by decide) (by decide)
  have hmono := unitsOf_mono (roundUnits_mono (distance_le hnear) 1)
  rw [hexact] at hmono
  exact (singleValue_iff h).mpr ⟨hbelow', Nat.lt_of_le_of_lt hmono tolerance_spec.2.2.1⟩

theorem near_of_singleValue (h : x.isFinite = true) (hvalue : singleValue x = true) :
    size x.unsignedBits < 100000 ∧ ∃ k : ℕ, |size (scaledBits x) - k| < 11 / 10 ^ 7 := by
  obtain ⟨hbelow, hdistance⟩ := (singleValue_iff h).mp hvalue
  refine ⟨by exact_mod_cast (magnitude_lt_iff x 100000).mp hbelow, nearestWhole (scaledBits x), ?_⟩
  have hlt : distance (scaledBits x) < tolerance := by
    by_contra hge
    have hexact : unitsOf (roundUnits tolerance 1) = tolerance := by
      rw [tolerance, magnitude, roundUnits_unitsOf tolerance_spec.1]
    have hmono := unitsOf_mono (roundUnits_mono (Nat.not_lt.mp hge) 1)
    omega
  have hscaled : |size (scaledBits x) - nearestWhole (scaledBits x)| * unitsPerOne = distance (scaledBits x) := by
    rw [distance, Nat.cast_natAbs, Int.cast_abs, Int.cast_sub, Int.cast_mul, Int.cast_natCast, Int.cast_natCast,
      Int.cast_natCast, ← size_mul_unitsPerOne, ← sub_mul, abs_mul, abs_of_pos unitsPerOne_pos']
  have hbound : (10000000 * distance (scaledBits x) : ℚ) < 11 * unitsPerOne := by
    have hsmall := tolerance_spec.2.2.2
    have hnat : 10000000 * distance (scaledBits x) < 11 * unitsPerOne := by omega
    exact_mod_cast hnat
  rw [← hscaled] at hbound
  have hunit := unitsPerOne_pos'
  rw [← mul_assoc] at hbound
  have hcancel := lt_of_mul_lt_mul_right hbound hunit.le
  rw [lt_div_iff₀ (by norm_num)]
  linarith

/-- Scaling errs by half a unit in the last place of the multiple at most. -/
theorem abs_scaled_sub_le {n : Nat} (hn : n ≤ 1023) (h : 100000 * size x.unsignedBits < 2 ^ n) :
    |size (scaledBits x) - 100000 * size x.unsignedBits| ≤ 2 ^ n / 2 ^ 54 ∧
      x.magnitude * 100000 / 1 < twoTo (n + 1074) := by
  have hvalue : ((x.magnitude * 100000 : Nat) : ℚ) / (1 : Nat) / unitsPerOne = 100000 * size x.unsignedBits := by
    rw [size, magnitude, Nat.cast_mul, Nat.cast_one, div_one]
    push_cast
    ring
  rw [← hvalue] at h ⊢
  exact ⟨abs_size_sub_le Nat.one_pos hn h, div_lt_twoTo Nat.one_pos h⟩

/-! ## Numerals -/

variable {digits : Nat} {exponent : Int}

/-- The errors of reading a numeral and of scaling it. -/
theorem abs_scaled_ofDecimal_sub_le (negative : Bool) {m n : Nat} (hm : m ≤ 1023) (hn : n ≤ 1023)
    (hnumber : (digits * 10 ^ exponent : ℚ) < 2 ^ m)
    (hmultiple : 100000 * (digits * 10 ^ exponent + 2 ^ m / 2 ^ 54 : ℚ) < 2 ^ n) :
    |size (scaledBits (.ofDecimal negative digits exponent)) - 100000 * (digits * 10 ^ exponent)| ≤
        2 ^ n / 2 ^ 54 + 100000 * (2 ^ m / 2 ^ 54) ∧
      (Double.ofDecimal negative digits exponent).magnitude * 100000 / 1 < twoTo (n + 1074) := by
  obtain ⟨_, hread⟩ := abs_size_ofDecimal_sub_le negative hm hnumber
  have hle : 100000 * size (Double.ofDecimal negative digits exponent).unsignedBits ≤
      100000 * (digits * 10 ^ exponent + 2 ^ m / 2 ^ 54) := by
    have hdifference := (abs_sub_le_iff.mp hread).1
    linarith
  obtain ⟨hscaled, hfinite⟩ := abs_scaled_sub_le hn (hle.trans_lt hmultiple)
  refine ⟨?_, hfinite⟩
  calc |size (scaledBits (.ofDecimal negative digits exponent)) - 100000 * (digits * 10 ^ exponent)|
    _ ≤ |size (scaledBits (.ofDecimal negative digits exponent)) -
          100000 * size (Double.ofDecimal negative digits exponent).unsignedBits| +
        |100000 * size (Double.ofDecimal negative digits exponent).unsignedBits -
          100000 * (digits * 10 ^ exponent)| := abs_sub_le _ _ _
    _ ≤ 2 ^ n / 2 ^ 54 + 100000 * (2 ^ m / 2 ^ 54) := by
      rw [← mul_sub, abs_mul, abs_of_pos (by norm_num : (0 : ℚ) < 100000)]
      linarith

/-- From `2 ^ 32` on a multiple has twenty binary places, so what is nearer to an integer than two units in the last of
them is as near as one. -/
theorem abs_scaled_sub_le_of_lt {k : Nat} (hfinite : x.magnitude * 100000 / 1 < twoTo 2097)
    (hlarge : 2 ^ 32 ≤ size (scaledBits x)) (h : |size (scaledBits x) - k| < 2 / 2 ^ 20) :
    |size (scaledBits x) - k| ≤ 1 / 2 ^ 20 := by
  have hplaces : ∃ j : ℕ, size (scaledBits x) = j / 2 ^ 20 := by
    rw [scaledBits] at hlarge ⊢
    obtain ⟨j, hj⟩ := exists_size_eq hfinite hlarge
    refine ⟨j, ?_⟩
    rw [eq_div_iff (by norm_num)]
    have hsplit : (2 : ℚ) ^ 52 = 2 ^ 20 * 2 ^ 32 := by norm_num
    rw [hsplit, ← mul_assoc] at hj
    exact mul_right_cancel₀ (by norm_num) hj
  obtain ⟨j, hplaces⟩ := hplaces
  have hpos : (0 : ℚ) < 2 ^ 20 := by norm_num
  have hdifference : size (scaledBits x) - k = ((j : Int) - k * 2 ^ 20 : Int) / 2 ^ 20 := by
    rw [hplaces]
    push_cast
    ring
  rw [hdifference, abs_div, abs_of_pos hpos, ← Int.cast_abs] at h ⊢
  have hlt : |(j : Int) - k * 2 ^ 20| < 2 := by exact_mod_cast (div_lt_div_iff_of_pos_right hpos).mp h
  have hle : |(j : Int) - k * 2 ^ 20| ≤ 1 := by omega
  apply div_le_div_of_nonneg_right _ hpos.le
  rw [← Int.cast_one, Int.cast_le]
  exact hle

/-- A numeral whose multiple by `10 ^ 5` is within `10 ^ -7` of an integer of at most ten digits passes. -/
theorem singleValue_of_grid (negative : Bool) {k : Nat} (hk : k < 10000000000)
    (h : |100000 * (digits * 10 ^ exponent : ℚ) - k| ≤ 1 / 10 ^ 7) :
    singleValue (.ofDecimal negative digits exponent) = true := by
  have hk' : (k : ℚ) ≤ 9999999999 := by exact_mod_cast Nat.le_of_lt_succ hk
  have hclose := (abs_sub_le_iff.mp h).1
  have hnumber : (digits * 10 ^ exponent : ℚ) < 2 ^ 17 := by
    linarith
  obtain ⟨hfinite, hread⟩ := abs_size_ofDecimal_sub_le negative (by decide) hnumber
  have hbelow : size (Double.ofDecimal negative digits exponent).unsignedBits < 100000 := by
    have hle := (abs_sub_le_iff.mp hread).1
    linarith
  apply singleValue_of_near hfinite hbelow (k := k)
  have htriangle := abs_sub_le (size (scaledBits (.ofDecimal negative digits exponent)))
    (100000 * (digits * 10 ^ exponent)) k
  rcases Nat.lt_or_ge 4294967296 k with hlarge | hsmall
  · have hmultiple : 100000 * (digits * 10 ^ exponent + 2 ^ 17 / 2 ^ 54 : ℚ) < 2 ^ 34 := by
      linarith
    obtain ⟨hscaled, hmagnitude⟩ := abs_scaled_ofDecimal_sub_le negative (by decide) (by decide) hnumber hmultiple
    have hk32 : (4294967297 : ℚ) ≤ k := by exact_mod_cast hlarge
    have hnear : |size (scaledBits (.ofDecimal negative digits exponent)) - k| < 2 / 2 ^ 20 := by
      linarith
    refine abs_scaled_sub_le_of_lt (Nat.lt_of_lt_of_le hmagnitude (twoTo_mono (by decide))) ?_ hnear
    have hle := (abs_sub_le_iff.mp hnear.le).2
    linarith
  · have hk32 : (k : ℚ) ≤ 4294967296 := by exact_mod_cast hsmall
    have hnumber' : (digits * 10 ^ exponent : ℚ) < 2 ^ 16 := by
      linarith
    have hmultiple : 100000 * (digits * 10 ^ exponent + 2 ^ 16 / 2 ^ 54 : ℚ) < 2 ^ 33 := by
      linarith
    obtain ⟨hscaled, _⟩ := abs_scaled_ofDecimal_sub_le negative (by decide) (by decide) hnumber' hmultiple
    linarith

/-- A numeral that passes is below `10 ^ 5`, and its multiple is within `3 * 10 ^ -6` of an integer. -/
theorem grid_of_singleValue {negative : Bool} (h : singleValue (.ofDecimal negative digits exponent) = true) :
    (digits * 10 ^ exponent : ℚ) < 100000 ∧
      ∃ k : ℕ, |100000 * (digits * 10 ^ exponent : ℚ) - k| < 3 / 10 ^ 6 := by
  have hfinite : (Double.ofDecimal negative digits exponent).isFinite = true := by
    rw [singleValue, Bool.and_eq_true] at h
    exact h.1
  obtain ⟨hbelow, k, hnear⟩ := near_of_singleValue hfinite h
  have hnumber : (digits * 10 ^ exponent : ℚ) < 100000 := by
    exact_mod_cast lt_of_size_ofDecimal_lt (c := 100000) (by decide) hfinite (by exact_mod_cast hbelow)
  have hmultiple : 100000 * (digits * 10 ^ exponent + 2 ^ 17 / 2 ^ 54 : ℚ) < 2 ^ 34 := by
    linarith
  obtain ⟨hscaled, _⟩ := abs_scaled_ofDecimal_sub_le negative (by decide) (by decide)
    (hnumber.trans (by norm_num)) hmultiple
  refine ⟨hnumber, k, ?_⟩
  have htriangle := abs_sub_le (100000 * (digits * 10 ^ exponent : ℚ))
    (size (scaledBits (.ofDecimal negative digits exponent))) k
  rw [abs_sub_comm (100000 * (digits * 10 ^ exponent : ℚ)) (size _)] at htriangle
  linarith

end Range

namespace Filter

variable {text : String} {w : NumericWord}

theorem singleText_of_near (hread : NumericWord.read? text.toList = some w) (hexponent : w.exponent.isSome = true)
    (hsuffix : ∀ c ∈ w.suffix, Range.isSuffix c = true) {k : ℤ} (hk : |k| < 10 ^ 10)
    (hnear : |10 ^ 5 * w.numeral.value - k| ≤ 1 / 10 ^ 7) : Range.singleText text = true := by
  have hscale : (10 : ℚ) ^ 5 = 100000 := by norm_num
  rw [singleText_iff_singleValue hread hsuffix hexponent]
  apply Range.singleValue_of_grid (k := k.natAbs)
  · have hbounds := abs_lt.mp hk
    omega
  · have hle := abs_abs_sub_abs_le (10 ^ 5 * w.numeral.value) (k : ℚ)
    rw [abs_mul, w.numeral.abs_value, hscale, abs_of_pos (by norm_num : (0 : ℚ) < 100000)] at hle
    rw [Nat.cast_natAbs, Int.cast_abs]
    rw [hscale] at hnear
    exact hle.trans hnear

/-- A number of at most five digits on either side of the point passes. -/
theorem singleText_of_multiple (hread : NumericWord.read? text.toList = some w) (hexponent : w.exponent.isSome = true)
    (hsuffix : ∀ c ∈ w.suffix, Range.isSuffix c = true) (hbelow : |w.numeral.value| < 10 ^ 5) {k : ℤ}
    (hk : 10 ^ 5 * w.numeral.value = k) : Range.singleText text = true := by
  have hrational : |(k : ℚ)| < 10 ^ 10 := by
    rw [← hk, abs_mul, abs_of_pos (by norm_num)]
    linarith
  refine singleText_of_near hread hexponent hsuffix (by exact_mod_cast hrational) ?_
  rw [hk, sub_self, abs_zero]
  positivity

theorem near_of_singleText (hread : NumericWord.read? text.toList = some w) (hexponent : w.exponent.isSome = true)
    (hsuffix : ∀ c ∈ w.suffix, Range.isSuffix c = true) (h : Range.singleText text = true) :
    |w.numeral.value| < 10 ^ 5 ∧ ∃ k : ℤ, |10 ^ 5 * w.numeral.value - k| < 3 / 10 ^ 6 := by
  have hscale : (10 : ℚ) ^ 5 = 100000 := by norm_num
  rw [singleText_iff_singleValue hread hsuffix hexponent] at h
  obtain ⟨hbelow, k, hnear⟩ := Range.grid_of_singleValue h
  rw [← w.numeral.abs_value] at hbelow hnear
  rw [hscale]
  refine ⟨hbelow, ?_⟩
  rcases le_or_gt 0 w.numeral.value with hnonneg | hneg
  · rw [abs_of_nonneg hnonneg] at hnear
    exact ⟨k, hnear⟩
  · rw [abs_of_neg hneg] at hnear
    refine ⟨-k, ?_⟩
    rw [← abs_neg]
    convert hnear using 2
    push_cast
    ring

namespace NumericWord

/-- At most five digits on either side of the point, as the number is written or, if it has an exponent, as it is
written without it. -/
def FitsSingle (w : NumericWord) : Prop :=
  match w.exponent with
  | none => w.whole.length ≤ 5 ∧ (w.fraction.getD []).length ≤ 5
  | some _ => |w.numeral.value| < 10 ^ 5 ∧ ∃ k : ℤ, 10 ^ 5 * w.numeral.value = k

/-- The digits of a single, but for an error of rounding in a number that has an exponent. -/
def NearSingle (w : NumericWord) : Prop :=
  match w.exponent with
  | none => w.whole.length ≤ 5 ∧ (w.fraction.getD []).length ≤ 5
  | some _ => |w.numeral.value| < 10 ^ 5 ∧ ∃ k : ℤ, |10 ^ 5 * w.numeral.value - k| < 3 / 10 ^ 6

end NumericWord

theorem singleText_of_fitsSingle (hread : NumericWord.read? text.toList = some w)
    (hsuffix : ∀ c ∈ w.suffix, Range.isSuffix c = true) (h : w.FitsSingle) : Range.singleText text = true := by
  cases hexponent : w.exponent with
  | none =>
    rw [NumericWord.FitsSingle, hexponent] at h
    exact (singleText_iff_length hread hsuffix hexponent).mpr h
  | some n =>
    rw [NumericWord.FitsSingle, hexponent] at h
    obtain ⟨hbelow, k, hk⟩ := h
    exact singleText_of_multiple hread (Option.isSome_of_eq_some hexponent) hsuffix hbelow hk

theorem nearSingle_of_singleText (hread : NumericWord.read? text.toList = some w)
    (hsuffix : ∀ c ∈ w.suffix, Range.isSuffix c = true) (h : Range.singleText text = true) : w.NearSingle := by
  cases hexponent : w.exponent with
  | none =>
    rw [NumericWord.NearSingle, hexponent]
    exact (singleText_iff_length hread hsuffix hexponent).mp h
  | some n =>
    rw [NumericWord.NearSingle, hexponent]
    exact near_of_singleText hread (Option.isSome_of_eq_some hexponent) hsuffix h

/-- The multiple of a number of ten digits after the point is not near to an integer without being one. -/
theorem eq_of_near {value : ℚ} {j k : ℤ} (hplaces : 10 ^ 10 * value = j) (hnear : |10 ^ 5 * value - k| < 3 / 10 ^ 6) :
    10 ^ 5 * value = k := by
  have hrational : |(j - 100000 * k : ℚ)| < 1 := by
    rw [← hplaces]
    obtain ⟨hhigh, hlow⟩ := abs_lt.mp hnear
    rw [abs_lt]
    constructor
    · linarith
    · linarith
  have hdifference : |j - 100000 * k| < 1 := by exact_mod_cast hrational
  have heq : j = 100000 * k := Int.sub_eq_zero.mp (Int.abs_lt_one_iff.mp hdifference)
  rw [heq] at hplaces
  push_cast at hplaces
  linarith

/-- A multiple of `10 ^ -5` is zero or has at least that magnitude. -/
theorem not_multiple_of_lt {value : ℚ} (hpos : 0 < |value|) (hlt : |value| < 1 / 10 ^ 5) :
    ¬ ∃ k : ℤ, 10 ^ 5 * value = k := by
  rintro ⟨k, hk⟩
  have hscale : (0 : ℚ) < 10 ^ 5 := by positivity
  have hrational : |(k : ℚ)| < 1 := by
    rw [← hk, abs_mul, abs_of_pos hscale, mul_comm]
    exact (lt_div_iff₀ hscale).mp hlt
  have hzero : k = 0 := Int.abs_lt_one_iff.mp (by exact_mod_cast hrational)
  rw [hzero, Int.cast_zero, mul_eq_zero] at hk
  rw [hk.resolve_left hscale.ne', abs_zero] at hpos
  exact lt_irrefl 0 hpos

/-- A number written with an exponent passes if its multiple by `10 ^ 5` is within `10 ^ -7` of an integer of at most
ten digits, and only if it is below `10 ^ 5` and its multiple is within `3 * 10 ^ -6` of an integer. So, of the numbers
of at most ten digits after the point, those pass that have at most five digits on either side of it. -/
theorem singleText_iff_of_exponent (hread : NumericWord.read? text.toList = some w)
    (hexponent : w.exponent.isSome = true) (hsuffix : ∀ c ∈ w.suffix, Range.isSuffix c = true) :
    ((∃ k : ℤ, |k| < 10 ^ 10 ∧ |10 ^ 5 * w.numeral.value - k| ≤ 1 / 10 ^ 7) → Range.singleText text = true) ∧
    (Range.singleText text = true →
      |w.numeral.value| < 10 ^ 5 ∧ ∃ k : ℤ, |10 ^ 5 * w.numeral.value - k| < 3 / 10 ^ 6) ∧
    ((∃ j : ℤ, 10 ^ 10 * w.numeral.value = j) →
      (Range.singleText text = true ↔ |w.numeral.value| < 10 ^ 5 ∧ ∃ k : ℤ, 10 ^ 5 * w.numeral.value = k)) := by
  refine ⟨fun h => ?_, near_of_singleText hread hexponent hsuffix, fun hplaces => ⟨fun h => ?_, fun h => ?_⟩⟩
  · obtain ⟨k, hk, hnear⟩ := h
    exact singleText_of_near hread hexponent hsuffix hk hnear
  · obtain ⟨j, hj⟩ := hplaces
    obtain ⟨hbelow, k, hnear⟩ := near_of_singleText hread hexponent hsuffix h
    exact ⟨hbelow, k, eq_of_near hj hnear⟩
  · obtain ⟨hbelow, k, hk⟩ := h
    exact singleText_of_multiple hread hexponent hsuffix hbelow hk

/-- A number of three digits before the point, and one of six digits after it. -/
theorem singleText_iff_of_exponent_digits :
    Range.singleText "1.5E2" = true ∧ Range.singleText "-123456e-6" = false := by
  let w : NumericWord := ⟨false, ['1'], some ['5'], some 2, []⟩
  let w' : NumericWord := ⟨true, ['1', '2', '3', '4', '5', '6'], none, some (-6), []⟩
  have hread : NumericWord.read? "1.5E2".toList = some w := by decide
  have hread' : NumericWord.read? "-123456e-6".toList = some w' := by decide
  have hnumeral : w.numeral = ⟨false, 15, 1⟩ := by decide
  have hnumeral' : w'.numeral = ⟨true, 123456, -6⟩ := by decide
  have hvalue : w.numeral.value = 150 := by
    rw [hnumeral]
    norm_num [Decimal.Numeral.value]
  have hvalue' : w'.numeral.value = -123456 / 1000000 := by
    rw [hnumeral']
    norm_num [Decimal.Numeral.value]
  obtain ⟨_, _, hbudget⟩ := singleText_iff_of_exponent hread rfl (List.forall_mem_nil _)
  obtain ⟨_, _, hbudget'⟩ := singleText_iff_of_exponent hread' rfl (List.forall_mem_nil _)
  rw [hvalue] at hbudget
  rw [hvalue'] at hbudget'
  constructor
  · refine (hbudget ⟨1500000000000, by norm_num⟩).mpr ⟨by norm_num, 15000000, by norm_num⟩
  · rw [← Bool.not_eq_true, hbudget' ⟨-1234560000, by norm_num⟩]
    intro h
    obtain ⟨_, k, hk⟩ := h
    have hfraction : (-123456 : ℚ) = (10 * k : ℤ) := by
      push_cast
      linarith
    have hinteger : -123456 = 10 * k := by exact_mod_cast hfraction
    omega

/-- A number of twelve digits after the point passes with an exponent, while it is refused without one. -/
theorem singleText_of_tiny :
    ∃ w, NumericWord.read? "1e-12".toList = some w ∧ w.exponent.isSome = true ∧ w.suffix = [] ∧
      Range.singleText "1e-12" = true ∧ (¬ ∃ k : ℤ, 10 ^ 5 * w.numeral.value = k) ∧
      Range.singleText "0.000000000001" = false := by
  let w : NumericWord := ⟨false, ['1'], none, some (-12), []⟩
  have hnumeral : w.numeral = ⟨false, 1, -12⟩ := by decide
  have hvalue : |w.numeral.value| = (1 : ℕ) / 10 ^ 12 := Decimal.Numeral.abs_value_neg false 1 12
  have hread : NumericWord.read? "1e-12".toList = some w := by decide
  refine ⟨w, hread, rfl, rfl, ?_, ?_, by decide⟩
  · rw [singleText_iff_singleValue hread (List.forall_mem_nil _) rfl, NumericWord.toDouble, hnumeral]
    exact Range.singleValue_of_grid (k := 0) false (by decide) (by norm_num)
  · apply not_multiple_of_lt
    · rw [hvalue]
      positivity
    · rw [hvalue]
      norm_num

end Filter

end EntityStore
