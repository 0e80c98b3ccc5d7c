import EntityStore.Proofs.Double
import Mathlib.Algebra.Order.Field.Basic
import Mathlib.Algebra.Order.Field.Power
import Mathlib.Algebra.Order.Ring.Rat
import Mathlib.Tactic.FieldSimp
import Mathlib.Tactic.Linarith
import Mathlib.Tactic.Ring

/-!
# The error of rounding

A rounded result errs by half a unit in its last place at most, is a multiple of that unit, and grows with what is
rounded. Main statements: `abs_size_sub_le`, `exists_size_eq` and `roundUnits_le_roundUnits`.
-/
namespace EntityStore

namespace Double

variable {num den : Nat}

/-! ## Rounding to integers -/

theorem roundHalfEven_error (num : Nat) (h : 0 < den) :
    2 * num ≤ 2 * (roundHalfEven num den * den) + den ∧ 2 * (roundHalfEven num den * den) ≤ 2 * num + den := by
  have hdiv := Nat.div_add_mod num den
  have hmod := Nat.mod_lt num h
  rw [Nat.mul_comm] at hdiv
  simp only [roundHalfEven, Bool.or_eq_true, Bool.and_eq_true, decide_eq_true_eq, beq_iff_eq]
  split
  · rw [Nat.succ_mul (num / den)]
    omega
  · rw [Nat.add_zero]
    omega

theorem roundHalfEven_mul (a b : Nat) {c : Nat} (h : 0 < c) : roundHalfEven (a * c) (b * c) = roundHalfEven a b := by
  have hlt : b * c < 2 * (a % b) * c ↔ b < 2 * (a % b) := Nat.mul_lt_mul_right h
  have heq : 2 * (a % b) * c = b * c ↔ 2 * (a % b) = b := Nat.mul_left_inj (Nat.ne_of_gt h)
  simp only [roundHalfEven, Nat.mul_div_mul_right _ _ h, Nat.mul_mod_mul_right, ← Nat.mul_assoc, hlt, Bool.or_eq_true,
    Bool.and_eq_true, decide_eq_true_eq, beq_iff_eq, heq]

/-! ## Rounding to doubles -/

/-- A common factor of both parts of a quotient does not count. -/
theorem roundUnits_mul {c : Nat} (h : 0 < c) : roundUnits (num * c) (den * c) = roundUnits num den := by
  rw [roundUnits_eq, roundUnits_eq, Nat.mul_div_mul_right _ _ h, Nat.mul_right_comm, roundHalfEven_mul _ _ h]

/-- A greater quotient is not rounded to less. -/
theorem roundUnits_le_roundUnits {num' den' : Nat} (hden : 0 < den) (hden' : 0 < den')
    (h : num * den' ≤ num' * den) : roundUnits num den ≤ roundUnits num' den' := by
  calc roundUnits num den = roundUnits (num * den') (den * den') := (roundUnits_mul hden').symm
    _ ≤ roundUnits (num' * den) (den * den') := roundUnits_mono h _
    _ = roundUnits num' den' := by rw [Nat.mul_comm den, roundUnits_mul hden]

theorem unitsOf_add {k r : Nat} (h : r ≤ twoTo 53) (h' : 0 < k → twoTo 52 ≤ r) :
    unitsOf (k * twoTo 52 + r) = r * twoTo k := by
  have h53 : twoTo 53 = twoTo 52 + twoTo 52 := by decide
  have hone : twoTo 0 = 1 := rfl
  rcases Nat.lt_or_ge r (twoTo 52) with hsmall | hlarge
  · obtain rfl : k = 0 := by omega
    rw [Nat.zero_mul, Nat.zero_add, unitsOf, if_pos (Nat.div_eq_of_lt hsmall), hone, Nat.mul_one]
  rcases Nat.eq_or_lt_of_le h with rfl | hlt
  · -- the carry raises the exponent
    have hcarry : k * twoTo 52 + twoTo 53 = (k + 1) * twoTo 52 + twoTo 52 := by
      rw [Nat.succ_mul]
      omega
    rw [hcarry, unitsOf_normal (Nat.le_refl _) (by decide), ← twoTo_add, ← twoTo_add, Nat.add_left_comm]
    congr 1
    omega
  · exact unitsOf_normal hlarge hlt

/-- A finite result is the quotient without its last bits, rounded, with zeros in the place of these bits. -/
theorem unitsOf_roundUnits_eq (h : num / den < twoTo 2097) :
    unitsOf (roundUnits num den) = roundHalfEven num (den * twoTo ((num / den).log2 - 52)) *
      twoTo ((num / den).log2 - 52) := by
  have hfinite := roundUnits_lt h
  have hwhole := whole_lt num den
  rw [roundUnits_eq] at hfinite ⊢
  rw [Nat.min_eq_right (by omega)]
  apply unitsOf_add
  · exact Nat.le_trans (roundHalfEven_le _ _) hwhole
  · exact fun hshift => Nat.le_trans (le_whole hshift) (le_roundHalfEven _ _)

theorem shift_le {n : Nat} (h : num / den < twoTo (n + 53)) : (num / den).log2 - 52 ≤ n := by
  rcases Nat.eq_zero_or_pos (num / den) with hzero | hpos
  · rw [hzero]
    exact Nat.zero_le n
  · have hlog := log2_lt (Nat.ne_of_gt hpos) h
    omega

theorem roundUnits_error (hden : 0 < den) {n : Nat} (hn : n + 53 ≤ 2097) (h : num / den < twoTo (n + 53)) :
    2 * num ≤ 2 * (unitsOf (roundUnits num den) * den) + den * twoTo n ∧
      2 * (unitsOf (roundUnits num den) * den) ≤ 2 * num + den * twoTo n := by
  have hfinite : num / den < twoTo 2097 := Nat.lt_of_lt_of_le h (twoTo_mono hn)
  have hshift : den * twoTo ((num / den).log2 - 52) ≤ den * twoTo n :=
    Nat.mul_le_mul_left den (twoTo_mono (shift_le h))
  obtain ⟨hlow, hhigh⟩ := roundHalfEven_error num (Nat.mul_pos hden (twoTo_pos ((num / den).log2 - 52)))
  have hunits : unitsOf (roundUnits num den) * den =
      roundHalfEven num (den * twoTo ((num / den).log2 - 52)) * (den * twoTo ((num / den).log2 - 52)) := by
    rw [unitsOf_roundUnits_eq hfinite, Nat.mul_assoc, Nat.mul_comm den]
  rw [hunits]
  omega

/-- A result of at least `n + 53` bits ends in `n` zeros. -/
theorem twoTo_dvd_unitsOf (hfinite : num / den < twoTo 2097) {n : Nat}
    (h : twoTo (n + 52) ≤ unitsOf (roundUnits num den)) : twoTo n ∣ unitsOf (roundUnits num den) := by
  have hwhole := whole_lt num den
  have hround := roundHalfEven_le num (den * twoTo ((num / den).log2 - 52))
  rw [unitsOf_roundUnits_eq hfinite] at h ⊢
  rcases Nat.lt_or_ge ((num / den).log2 - 52) n with hlt | hge
  · -- only a carry leads to so large a result from so small a shift
    have htop : twoTo 53 * twoTo (n - 1) = twoTo n * twoTo 52 := by
      rw [← twoTo_add, ← twoTo_add]
      congr 1
      omega
    have hle := Nat.mul_le_mul (Nat.le_trans hround hwhole) (twoTo_mono (Nat.le_sub_one_of_lt hlt))
    rw [twoTo_add] at h
    rw [htop] at hle
    rw [Nat.le_antisymm hle h]
    exact Nat.dvd_mul_right _ _
  · exact Nat.dvd_trans (Nat.pow_dvd_pow 2 hge) (Nat.dvd_mul_left _ _)

/-! ## Values -/

/-- The number, without sign, that bits without sign denote. -/
def size (bits : Nat) : ℚ := unitsOf bits / unitsPerOne

theorem size_zero : size 0 = 0 := by
  have hzero : unitsOf 0 = 0 := by decide
  rw [size, hzero, Nat.cast_zero, zero_div]

theorem twoTo_eq (n : Nat) : twoTo n = 2 ^ n := rfl

theorem unitsPerOne_pos' : (0 : ℚ) < unitsPerOne := Nat.cast_pos.mpr unitsPerOne_pos

theorem div_lt_twoTo (hden : 0 < den) {n : Nat} (h : (num : ℚ) / den / unitsPerOne < 2 ^ n) :
    num / den < twoTo (n + 1074) := by
  have hden' : (0 : ℚ) < den := Nat.cast_pos.mpr hden
  rw [div_div, div_lt_iff₀ (mul_pos hden' unitsPerOne_pos')] at h
  rw [Nat.div_lt_iff_lt_mul hden, twoTo_add, ← unitsPerOne, twoTo_eq]
  have hcast : (num : ℚ) < ((2 ^ n * unitsPerOne * den : Nat) : ℚ) := by
    push_cast
    linarith
  exact_mod_cast hcast

/-- A result below `2 ^ n` errs by at most half a unit in its last place. -/
theorem abs_size_sub_le (hden : 0 < den) {n : Nat} (hn : n ≤ 1023) (h : (num : ℚ) / den / unitsPerOne < 2 ^ n) :
    |size (roundUnits num den) - num / den / unitsPerOne| ≤ 2 ^ n / 2 ^ 54 := by
  have hden' : (0 : ℚ) < den := Nat.cast_pos.mpr hden
  have hunit := unitsPerOne_pos'
  have hlt := div_lt_twoTo hden h
  have hsum : n + 1074 = n + 1021 + 53 := rfl
  rw [hsum] at hlt
  obtain ⟨hlow, hhigh⟩ := roundUnits_error hden (by omega) hlt
  have hplace : (twoTo (n + 1021) : ℚ) = 2 * (2 ^ n / 2 ^ 54) * unitsPerOne := by
    have hunits : (unitsPerOne : ℚ) = 2 ^ 1021 * 2 ^ 53 := by
      rw [unitsPerOne, twoTo_eq, Nat.cast_pow, Nat.cast_ofNat, ← pow_add]
    rw [hunits, twoTo_eq, Nat.cast_pow, Nat.cast_ofNat, pow_add]
    generalize (2 : ℚ) ^ 1021 = a
    ring
  have hlow' : (2 * num : ℚ) ≤ 2 * (unitsOf (roundUnits num den) * den) + den * twoTo (n + 1021) := by
    exact_mod_cast hlow
  have hhigh' : (2 * (unitsOf (roundUnits num den) * den) : ℚ) ≤ 2 * num + den * twoTo (n + 1021) := by
    exact_mod_cast hhigh
  have hsize : size (roundUnits num den) * (den * unitsPerOne) = unitsOf (roundUnits num den) * den := by
    rw [size, mul_comm (den : ℚ), ← mul_assoc, div_mul_cancel₀ _ hunit.ne']
  have hscale : (0 : ℚ) < den * unitsPerOne := mul_pos hden' hunit
  rw [hplace] at hlow' hhigh'
  rw [div_div, abs_sub_le_iff, sub_le_iff_le_add, sub_le_iff_le_add, div_le_iff₀ hscale, ← sub_le_iff_le_add',
    le_div_iff₀ hscale]
  constructor
  · linarith
  · linarith

/-- A result of at least `2 ^ n` has no place after the one that stands for `2 ^ n / 2 ^ 52`. -/
theorem exists_size_eq (hfinite : num / den < twoTo 2097) {n : Nat} (h : 2 ^ n ≤ size (roundUnits num den)) :
    ∃ j : ℕ, size (roundUnits num den) * 2 ^ 52 = j * 2 ^ n := by
  have hunit := unitsPerOne_pos'
  rw [size, le_div_iff₀ hunit] at h
  have hunits : unitsPerOne = twoTo 1022 * twoTo 52 := (twoTo_add 1022 52)
  have hlarge : twoTo (n + 1022 + 52) ≤ unitsOf (roundUnits num den) := by
    rw [twoTo_add, twoTo_add, Nat.mul_assoc, ← hunits, twoTo_eq]
    exact_mod_cast h
  obtain ⟨j, hj⟩ := twoTo_dvd_unitsOf hfinite hlarge
  refine ⟨j, ?_⟩
  rw [size, hj, twoTo_add, hunits, twoTo_eq 52, twoTo_eq n]
  have hpos : (0 : ℚ) < twoTo 1022 := Nat.cast_pos.mpr (twoTo_pos 1022)
  generalize twoTo 1022 = a at hpos
  simp only [Nat.cast_mul, Nat.cast_pow, Nat.cast_ofNat]
  field_simp

/-- Rounding does not lead below an integer. -/
theorem le_size_roundUnits (hden : 0 < den) {c : Nat} (hc : c ≤ twoTo 53) (h : (c : ℚ) ≤ num / den / unitsPerOne) :
    c ≤ size (roundUnits num den) := by
  have hden' : (0 : ℚ) < den := Nat.cast_pos.mpr hden
  have hunit := unitsPerOne_pos'
  rw [div_div, le_div_iff₀ (mul_pos hden' hunit), mul_comm (den : ℚ), ← mul_assoc] at h
  have hle : c * unitsPerOne * den ≤ num := by exact_mod_cast h
  have hexact : unitsOf (roundUnits (c * unitsPerOne * den) den) = c * unitsPerOne := by
    have hcancel := @roundUnits_mul (c * unitsPerOne) 1 den hden
    rw [Nat.one_mul] at hcancel
    rw [hcancel, unitsOf_roundUnits_integer hc]
  have hmono := unitsOf_mono (roundUnits_mono hle den)
  rw [hexact] at hmono
  rw [size, le_div_iff₀ hunit]
  exact_mod_cast hmono

/-! ## Decimal numerals -/

end Double

/-- The number that is denoted. -/
def Decimal.Numeral.value (n : Decimal.Numeral) : ℚ := (if n.negative then -1 else 1) * (n.digits * 10 ^ n.exponent)

namespace Decimal.Numeral

theorem abs_value (n : Decimal.Numeral) : |n.value| = n.digits * 10 ^ n.exponent := by
  have hnonneg : (0 : ℚ) ≤ n.digits * 10 ^ n.exponent := by positivity
  rw [value, abs_mul, abs_of_nonneg hnonneg]
  split <;> simp

theorem abs_value_natCast (negative : Bool) (digits m : Nat) :
    |(⟨negative, digits, m⟩ : Decimal.Numeral).value| = digits * 10 ^ m := by
  rw [abs_value, zpow_natCast]

theorem abs_value_neg (negative : Bool) (digits m : Nat) :
    |(⟨negative, digits, -(m : Int)⟩ : Decimal.Numeral).value| = digits / 10 ^ m := by
  rw [abs_value, zpow_neg, zpow_natCast, ← div_eq_mul_inv]

theorem value_ofInt (n : Int) : (⟨n < 0, n.natAbs, 0⟩ : Decimal.Numeral).value = n := by
  simp only [value, zpow_zero, mul_one, Nat.cast_natAbs, decide_eq_true_eq]
  split
  · rename_i hneg
    rw [abs_of_neg hneg]
    push_cast
    ring
  · rename_i hneg
    rw [abs_of_nonneg (not_lt.mp hneg), one_mul]

end Decimal.Numeral

namespace Double

theorem tenTo_eq (n : Nat) : Decimal.tenTo n = 10 ^ n := rfl

theorem tenTo_div_tenTo (exponent : Int) :
    (Decimal.tenTo exponent.toNat : ℚ) / Decimal.tenTo (-exponent).toNat = 10 ^ exponent := by
  cases exponent with
  | ofNat n =>
    have hneg : (-(Int.ofNat n)).toNat = 0 := by simp
    rw [hneg, tenTo_eq, tenTo_eq]
    simp
  | negSucc n =>
    have hneg : (-(Int.negSucc n)).toNat = n + 1 := rfl
    have hpos : (Int.negSucc n).toNat = 0 := rfl
    rw [hneg, hpos, tenTo_eq, tenTo_eq, zpow_negSucc]
    simp

theorem two_pow_le_ten_pow {m n : Nat} (h : m ≤ 3 * n) : (2 : ℚ) ^ m ≤ 10 ^ n := by
  calc (2 : ℚ) ^ m ≤ 2 ^ (3 * n) := pow_le_pow_right₀ (by norm_num) h
    _ = (2 ^ 3) ^ n := pow_mul _ _ _
    _ ≤ 10 ^ n := pow_le_pow_left₀ (by norm_num) (by norm_num) _

/-- So small a power of ten makes any digits vanish. -/
theorem mul_tenTo_le {digits : Nat} {exponent : Int} (h : exponent < -(400 + digits.log2 : Int)) :
    (digits * 10 ^ exponent : ℚ) ≤ 1 / 2 ^ 1075 := by
  have hdigits : (digits : ℚ) ≤ 2 ^ (digits.log2 + 1) := by
    have hlt : digits < 2 ^ (digits.log2 + 1) := Nat.lt_log2_self
    exact_mod_cast Nat.le_of_lt hlt
  have hpower : (10 : ℚ) ^ exponent ≤ 10 ^ (-(401 + digits.log2 : Nat) : Int) :=
    zpow_le_zpow_right₀ (by norm_num) (by push_cast; omega)
  have hsize : (2 : ℚ) ^ (digits.log2 + 1) * 2 ^ 1075 ≤ 10 ^ (401 + digits.log2) := by
    rw [← pow_add]
    exact two_pow_le_ten_pow (by omega)
  rw [zpow_neg, zpow_natCast] at hpower
  calc (digits * 10 ^ exponent : ℚ) ≤ 2 ^ (digits.log2 + 1) * (10 ^ (401 + digits.log2))⁻¹ :=
        mul_le_mul hdigits hpower (by positivity) (by positivity)
    _ ≤ 1 / 2 ^ 1075 := by
      rw [← div_eq_mul_inv, div_le_div_iff₀ (by positivity) (by positivity), one_mul]
      exact hsize

theorem le_mul_tenTo {digits : Nat} {exponent : Int} (hdigits : digits ≠ 0) (h : 400 < exponent) :
    (2 : ℚ) ^ 1024 ≤ digits * 10 ^ exponent := by
  have hone : (1 : ℚ) ≤ digits := by exact_mod_cast Nat.one_le_iff_ne_zero.mpr hdigits
  have hpower : (10 : ℚ) ^ (401 : Int) ≤ 10 ^ exponent := zpow_le_zpow_right₀ (by norm_num) h
  calc (2 : ℚ) ^ 1024 ≤ 10 ^ 401 := two_pow_le_ten_pow (by norm_num)
    _ ≤ 1 * 10 ^ exponent := by rw [one_mul]; exact hpower
    _ ≤ digits * 10 ^ exponent := mul_le_mul_of_nonneg_right hone (by positivity)

theorem one_div_pow_le : (1 : ℚ) / 2 ^ 1075 ≤ 1 / 2 ^ 54 := one_div_pow_le_one_div_pow_of_le one_le_two (by decide)

/-- A numeral is rounded as the quotient it denotes, but for a few far too small or too large. -/
theorem ofDecimal_cases (negative : Bool) (digits : Nat) (exponent : Int) :
    (ofDecimal negative digits exponent).unsignedBits = 0 ∧ (digits * 10 ^ exponent : ℚ) ≤ 1 / 2 ^ 1075 ∨
    (ofDecimal negative digits exponent).unsignedBits = infinityBits ∧ (2 : ℚ) ^ 1024 ≤ digits * 10 ^ exponent ∨
    ∃ num den, 0 < den ∧ (ofDecimal negative digits exponent).unsignedBits = roundUnits num den ∧
      (num : ℚ) / den / unitsPerOne = digits * 10 ^ exponent := by
  unfold ofDecimal
  split
  · rename_i hsmall
    refine .inl ⟨unsignedBits_withSign _ (Nat.zero_le _), ?_⟩
    simp only [Bool.or_eq_true, decide_eq_true_eq] at hsmall
    rcases hsmall with hzero | hsmall
    · rw [hzero, Nat.cast_zero, zero_mul]
      positivity
    · exact mul_tenTo_le hsmall
  split
  · rename_i hsmall hlarge
    simp only [Bool.or_eq_true, decide_eq_true_eq, not_or] at hsmall
    exact .inr (.inl ⟨unsignedBits_withSign _ (Nat.le_refl _), le_mul_tenTo hsmall.1 hlarge⟩)
  · have hden : 0 < Decimal.tenTo (-exponent).toNat := Nat.pow_pos (by decide)
    refine .inr (.inr ⟨_, _, hden, unsignedBits_withSign _ (roundUnits_le _ _), ?_⟩)
    rw [← tenTo_div_tenTo, Nat.cast_mul, Nat.cast_mul, div_right_comm, mul_div_cancel_right₀ _ unitsPerOne_pos'.ne',
      mul_div_assoc]

/-- A numeral below `2 ^ n` is read as a finite number that errs by at most half a unit in its last place. -/
theorem abs_size_ofDecimal_sub_le (negative : Bool) {digits : Nat} {exponent : Int} {n : Nat} (hn : n ≤ 1023)
    (h : (digits * 10 ^ exponent : ℚ) < 2 ^ n) :
    (ofDecimal negative digits exponent).isFinite = true ∧
      |size (ofDecimal negative digits exponent).unsignedBits - digits * 10 ^ exponent| ≤ 2 ^ n / 2 ^ 54 := by
  have hone : (1 : ℚ) ≤ 2 ^ n := one_le_pow₀ (by norm_num)
  rcases ofDecimal_cases negative digits exponent with ⟨hbits, hsmall⟩ | ⟨_, hlarge⟩ | ⟨num, den, hden, hbits, hvalue⟩
  · have hnonneg : (0 : ℚ) ≤ digits * 10 ^ exponent := by positivity
    constructor
    · rw [isFinite, hbits]
      decide
    · rw [hbits, size_zero, zero_sub, abs_neg, abs_of_nonneg hnonneg]
      exact (hsmall.trans one_div_pow_le).trans (div_le_div_of_nonneg_right hone (by positivity))
  · have hle : (2 : ℚ) ^ n ≤ 2 ^ 1024 := pow_le_pow_right₀ (by norm_num) (by omega)
    exact absurd h (not_lt.mpr (hle.trans hlarge))
  · rw [← hvalue] at h ⊢
    constructor
    · have hlt := div_lt_twoTo hden h
      rw [isFinite, hbits]
      exact decide_eq_true (roundUnits_lt (Nat.lt_of_lt_of_le hlt (twoTo_mono (by omega))))
    · rw [hbits]
      exact abs_size_sub_le hden hn h

/-- A numeral that is read as a number below an integer is below it. -/
theorem lt_of_size_ofDecimal_lt {negative : Bool} {digits : Nat} {exponent : Int} {c : Nat} (hc : c ≤ twoTo 53)
    (hfinite : (ofDecimal negative digits exponent).isFinite = true)
    (h : size (ofDecimal negative digits exponent).unsignedBits < c) : (digits * 10 ^ exponent : ℚ) < c := by
  rcases ofDecimal_cases negative digits exponent with ⟨hbits, hsmall⟩ | ⟨hbits, _⟩ | ⟨num, den, hden, hbits, hvalue⟩
  · rw [hbits, size_zero, Nat.cast_pos] at h
    have hone : (1 : ℚ) ≤ c := by exact_mod_cast h
    have htiny : (1 : ℚ) / 2 ^ 54 < 1 := by norm_num
    exact (hsmall.trans one_div_pow_le).trans_lt (htiny.trans_le hone)
  · rw [isFinite, hbits] at hfinite
    exact absurd hfinite (by decide)
  · rw [hbits] at h
    rw [← hvalue]
    by_contra hge
    exact absurd (le_size_roundUnits hden hc (not_lt.mp hge)) (not_le.mpr h)

end Double

end EntityStore
