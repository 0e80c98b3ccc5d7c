import EntityStore.Double

/-!
# Exact and finite doubles

Integers up to `2 ^ 53` are doubles exactly, a rounded result is finite unless it is very large, and rounding keeps the
order. Main statements: `units_ofInt`, `isFinite_ofUnits` and `nearestUnits_mono`.
-/
namespace EntityStore.Double

variable {x : Double} {bits num den : Nat}

/-! ## Bits and signs -/

theorem unsignedBits_withSign (negative : Bool) {bits : Nat} (h : bits ≤ infinityBits) :
    (withSign negative bits).unsignedBits = bits := by
  have hinfinity : infinityBits < twoTo 63 := by decide
  have hsize : twoTo 63 + twoTo 63 = 18446744073709551616 := by decide
  cases negative with
  | false =>
    have hlt : bits < 18446744073709551616 := by omega
    simp only [withSign, unsignedBits, Bool.false_eq_true, if_false, Nat.add_zero, UInt64.toNat_ofNat']
    rw [Nat.mod_eq_of_lt hlt, Nat.mod_eq_of_lt (by omega)]
  | true =>
    have hlt : bits + twoTo 63 < 18446744073709551616 := by omega
    simp only [withSign, unsignedBits, if_true, UInt64.toNat_ofNat']
    rw [Nat.mod_eq_of_lt hlt, Nat.add_mod_right, Nat.mod_eq_of_lt (by omega)]

theorem negative_withSign (negative : Bool) {bits : Nat} (h : bits ≤ infinityBits) :
    (withSign negative bits).negative = negative := by
  have hinfinity : infinityBits < twoTo 63 := by decide
  have hsize : twoTo 63 + twoTo 63 = 18446744073709551616 := by decide
  cases negative with
  | false =>
    have hlt : bits < 18446744073709551616 := by omega
    simp only [withSign, Double.negative, Bool.false_eq_true, if_false, Nat.add_zero, UInt64.toNat_ofNat']
    rw [Nat.mod_eq_of_lt hlt]
    simpa using Nat.lt_of_le_of_lt h hinfinity
  | true =>
    have hlt : bits + twoTo 63 < 18446744073709551616 := by omega
    simp only [withSign, Double.negative, if_true, UInt64.toNat_ofNat']
    rw [Nat.mod_eq_of_lt hlt]
    simp

theorem units_withSign (negative : Bool) {bits : Nat} (h : bits ≤ infinityBits) :
    (withSign negative bits).units = if negative then -(unitsOf bits : Int) else unitsOf bits := by
  rw [units, magnitude, negative_withSign negative h, unsignedBits_withSign negative h]

theorem magnitude_withSign (negative : Bool) {bits : Nat} (h : bits ≤ infinityBits) :
    (withSign negative bits).magnitude = unitsOf bits := by
  rw [magnitude, unsignedBits_withSign negative h]

theorem isNaN_withSign (negative : Bool) {bits : Nat} (h : bits ≤ infinityBits) :
    (withSign negative bits).isNaN = false := by
  simpa [isNaN, unsignedBits_withSign negative h] using h

theorem roundUnits_le (num den : Nat) : roundUnits num den ≤ infinityBits := Nat.min_le_left _ _

/-- No numeral is read as a NaN: what is too large becomes infinite. -/
theorem isNaN_ofNumeral (n : Decimal.Numeral) : (ofNumeral n).isNaN = false := by
  unfold ofNumeral ofDecimal
  split
  · exact isNaN_withSign _ (Nat.zero_le _)
  split
  · exact isNaN_withSign _ (Nat.le_refl _)
  · exact isNaN_withSign _ (roundUnits_le _ _)

theorem compare?_self (h : x.isNaN = false) : x.compare? x = some .eq := by
  simp [compare?, h]

/-! ## Magnitudes -/

theorem le_iff {x y : Double} (hx : x.isNaN = false) (hy : y.isNaN = false) :
    x.le y = true ↔ x.units ≤ y.units := by
  rw [le, compare?, hx, hy]
  simp [Int.compare_eq_lt, Int.le_iff_lt_or_eq]

theorem lt_iff {x y : Double} (hx : x.isNaN = false) (hy : y.isNaN = false) :
    x.lt y = true ↔ x.units < y.units := by
  rw [Double.lt, compare?, hx, hy]
  simp [Int.compare_eq_lt]

theorem isNaN_of_isFinite (h : x.isFinite = true) : x.isNaN = false := by
  simp only [isFinite, decide_eq_true_eq] at h
  exact decide_eq_false (Nat.not_lt.mpr (Nat.le_of_lt h))

theorem units_of_not_negative (h : x.negative = false) : x.units = x.magnitude := by
  rw [units, h, if_neg Bool.false_ne_true]

theorem isNaN_abs (h : x.isNaN = false) : x.abs.isNaN = false :=
  isNaN_withSign _ (by simpa [isNaN] using h)

theorem units_abs (h : x.isNaN = false) : x.abs.units = x.magnitude := by
  rw [abs, units_withSign _ (by simpa [isNaN] using h)]
  rfl

/-! ## Exact integers -/

theorem unitsPerOne_pos : 0 < unitsPerOne := twoTo_pos 1074

theorem twoTo_mono {m n : Nat} (h : m ≤ n) : twoTo m ≤ twoTo n := Nat.pow_le_pow_right (by decide) h

theorem log2_lt {n k : Nat} (hn : n ≠ 0) (h : n < twoTo k) : n.log2 < k := (Nat.log2_lt hn).mpr h

theorem unitsOf_normal {m k : Nat} (hm : twoTo 52 ≤ m) (hm' : m < twoTo 53) :
    unitsOf (k * twoTo 52 + m) = m * twoTo k := by
  have h53 : twoTo 53 = twoTo 52 + twoTo 52 := by decide
  have hpos := twoTo_pos 52
  have hbits : k * twoTo 52 + m = (m - twoTo 52) + (k + 1) * twoTo 52 := by
    rw [Nat.succ_mul]
    omega
  have hlt : m - twoTo 52 < twoTo 52 := by omega
  have hdiv : (k * twoTo 52 + m) / twoTo 52 = k + 1 := by
    rw [hbits, Nat.add_mul_div_right _ _ hpos, Nat.div_eq_of_lt hlt, Nat.zero_add]
  have hmod : (k * twoTo 52 + m) % twoTo 52 = m - twoTo 52 := by
    rw [hbits, Nat.add_mul_mod_self_right, Nat.mod_eq_of_lt hlt]
  rw [unitsOf, hdiv, hmod, if_neg (Nat.succ_ne_zero k), Nat.sub_add_cancel hm, Nat.add_sub_cancel]

/-- A number of 53 bits times a power of two is the value of its own rounding, if that is finite. -/
theorem unitsOf_roundUnits {m k : Nat} (hm : twoTo 52 ≤ m) (hm' : m < twoTo 53)
    (hfinite : k * twoTo 52 + m ≤ infinityBits) : unitsOf (roundUnits (m * twoTo k) 1) = m * twoTo k := by
  rw [roundUnits_mul_twoTo hm hm', Nat.min_eq_right hfinite, unitsOf_normal hm hm']

theorem unitsOf_roundUnits_integer {n : Nat} (h : n ≤ twoTo 53) :
    unitsOf (roundUnits (n * unitsPerOne) 1) = n * unitsPerOne := by
  rcases Nat.eq_zero_or_pos n with rfl | hpos
  · rw [Nat.zero_mul]
    rfl
  rcases Nat.eq_or_lt_of_le h with rfl | hlt
  · have hscaled : twoTo 53 * unitsPerOne = twoTo 52 * twoTo 1075 := by rw [unitsPerOne, ← twoTo_add, ← twoTo_add]
    rw [hscaled]
    exact unitsOf_roundUnits (Nat.le_refl _) (by decide) (by decide)
  -- the leading bit of the integer is shifted to the place of the leading bit of a fraction
  have hlog : n.log2 < 53 := log2_lt (Nat.ne_of_gt hpos) hlt
  have hlow : twoTo n.log2 ≤ n := Nat.log2_self_le (by omega)
  have hhigh : n < twoTo (n.log2 + 1) := Nat.lt_log2_self
  have hshift := twoTo_pos (52 - n.log2)
  have hscaled : n * unitsPerOne = n * twoTo (52 - n.log2) * twoTo (1022 + n.log2) := by
    rw [Nat.mul_assoc, ← twoTo_add, show 52 - n.log2 + (1022 + n.log2) = 1074 by omega]
    rfl
  have hm : twoTo 52 ≤ n * twoTo (52 - n.log2) := by
    calc twoTo 52 = twoTo n.log2 * twoTo (52 - n.log2) := by rw [← twoTo_add, Nat.add_sub_cancel' (by omega)]
      _ ≤ n * twoTo (52 - n.log2) := Nat.mul_le_mul_right _ hlow
  have hm' : n * twoTo (52 - n.log2) < twoTo 53 := by
    calc n * twoTo (52 - n.log2) < twoTo (n.log2 + 1) * twoTo (52 - n.log2) := Nat.mul_lt_mul_of_pos_right hhigh hshift
      _ = twoTo 53 := by rw [← twoTo_add, show n.log2 + 1 + (52 - n.log2) = 53 by omega]
  rw [hscaled]
  refine unitsOf_roundUnits hm hm' ?_
  have hbound : 1074 * twoTo 52 + twoTo 53 ≤ infinityBits := by decide
  have hexponent : (1022 + n.log2) * twoTo 52 ≤ 1074 * twoTo 52 := Nat.mul_le_mul_right _ (by omega)
  omega

/-- An integer of at most 53 bits is a double exactly. -/
theorem units_ofInt {n : Int} (h : n.natAbs ≤ twoTo 53) : (ofInt n).units = n * unitsPerOne := by
  rw [ofInt, ofUnits, units_withSign _ (roundUnits_le _ _), unitsOf_roundUnits_integer h, Int.natCast_mul]
  by_cases hn : n < 0
  · rw [decide_eq_true hn, if_pos rfl, Int.ofNat_natAbs_of_nonpos (Int.le_of_lt hn), Int.neg_mul, Int.neg_neg]
  · rw [decide_eq_false hn, if_neg Bool.false_ne_true, Int.natAbs_of_nonneg (Int.not_lt.mp hn)]

theorem isNaN_ofInt (n : Int) : (ofInt n).isNaN = false := isNaN_withSign _ (roundUnits_le _ _)

/-! ## Finite results -/

/-- What is left of a quotient after the shift has at most 53 bits. -/
theorem whole_lt (num den : Nat) : num / (den * twoTo ((num / den).log2 - 52)) < twoTo 53 := by
  rw [← Nat.div_div_eq_div_mul]
  refine Nat.div_lt_of_lt_mul (Nat.lt_of_lt_of_le Nat.lt_log2_self ?_)
  change twoTo _ ≤ _
  rw [← twoTo_add]
  exact twoTo_mono (by omega)

/-- A quotient below `2 ^ 1023` in magnitude is rounded to a finite number. -/
theorem roundUnits_lt (h : num / den < twoTo 2097) : roundUnits num den < infinityBits := by
  have hwhole := whole_lt num den
  have hshift : (num / den).log2 - 52 ≤ 2044 := by
    rcases Nat.eq_zero_or_pos (num / den) with hzero | hpos
    · rw [hzero]
      decide
    · have hlog := log2_lt (Nat.ne_of_gt hpos) h
      omega
  have hexponent : ((num / den).log2 - 52) * twoTo 52 ≤ 2044 * twoTo 52 := Nat.mul_le_mul_right _ hshift
  have hbound : 2044 * twoTo 52 + twoTo 53 < infinityBits := by decide
  refine Nat.lt_of_le_of_lt (Nat.min_le_right _ _) ?_
  split <;> omega

theorem isFinite_ofUnits (negative : Bool) (h : num / den < twoTo 2097) : (ofUnits negative num den).isFinite = true := by
  have hlt := roundUnits_lt h
  rw [isFinite, ofUnits, unsignedBits_withSign _ (Nat.le_of_lt hlt)]
  exact decide_eq_true hlt

/-- What is not a NaN and has not the magnitude of infinity is finite. -/
theorem isFinite_of_magnitude_ne (h : x.isNaN = false) (hne : x.magnitude ≠ unitsOf infinityBits) :
    x.isFinite = true := by
  have hle : x.unsignedBits ≤ infinityBits := by simpa [isNaN] using h
  have hbits : x.unsignedBits ≠ infinityBits := fun heq => hne (congrArg unitsOf heq)
  exact decide_eq_true (Nat.lt_of_le_of_ne hle hbits)

theorem mul_unitsPerOne_lt {n : Nat} (h : n < twoTo 1023) : n * unitsPerOne < twoTo 2097 := by
  have hsum : 2097 = 1023 + 1074 := rfl
  rw [hsum, twoTo_add, unitsPerOne]
  exact Nat.mul_lt_mul_of_pos_right h unitsPerOne_pos

theorem isFinite_ofInt {n : Int} (h : n.natAbs < twoTo 1023) : (ofInt n).isFinite = true := by
  refine isFinite_ofUnits _ ?_
  rw [Nat.div_one]
  exact mul_unitsPerOne_lt h

/-- A numeral without a positive exponent is finite if its digits are few. -/
theorem isFinite_ofDecimal (negative : Bool) {digits : Nat} {exponent : Int} (hdigits : digits < twoTo 1023)
    (hexponent : exponent ≤ 0) : (ofDecimal negative digits exponent).isFinite = true := by
  unfold ofDecimal
  split
  · rw [isFinite, unsignedBits_withSign _ (Nat.zero_le _)]
    decide
  have hsmall : ¬ 400 < exponent := by omega
  rw [if_neg hsmall]
  refine isFinite_ofUnits _ (Nat.lt_of_le_of_lt (Nat.div_le_self _ _) ?_)
  have hone : Decimal.tenTo exponent.toNat = 1 := by
    rw [Int.toNat_of_nonpos hexponent]
    rfl
  rw [hone, Nat.mul_one]
  exact mul_unitsPerOne_lt hdigits

/-! ## Order -/

/-- The quotient, rounded to an integer, a half to the even one. -/
def roundHalfEven (num den : Nat) : Nat :=
  let twice := 2 * (num % den)
  num / den + if den < twice || (twice == den && num / den % 2 == 1) then 1 else 0

theorem roundUnits_eq (num den : Nat) : roundUnits num den =
    min infinityBits (((num / den).log2 - 52) * twoTo 52 +
      roundHalfEven num (den * twoTo ((num / den).log2 - 52))) := by
  rw [roundHalfEven, ← Nat.add_assoc]
  rfl

theorem roundHalfEven_le (num den : Nat) : roundHalfEven num den ≤ num / den + 1 := by
  dsimp only [roundHalfEven]
  split <;> omega

theorem le_roundHalfEven (num den : Nat) : num / den ≤ roundHalfEven num den := Nat.le_add_right _ _

theorem roundHalfEven_mono {a b : Nat} (h : a ≤ b) (den : Nat) : roundHalfEven a den ≤ roundHalfEven b den := by
  rcases Nat.lt_or_eq_of_le (Nat.div_le_div_right (c := den) h) with hlt | heq
  · exact Nat.le_trans (roundHalfEven_le a den) (Nat.le_trans hlt (le_roundHalfEven b den))
  · have hmod : a % den ≤ b % den := by
      have ha := Nat.div_add_mod a den
      have hb := Nat.div_add_mod b den
      rw [heq] at ha
      omega
    simp only [roundHalfEven, heq, Bool.or_eq_true, Bool.and_eq_true, decide_eq_true_eq, beq_iff_eq]
    split <;> split <;> omega

theorem log2_mono {a b : Nat} (h : a ≤ b) : a.log2 ≤ b.log2 := by
  rcases Nat.eq_zero_or_pos a with rfl | ha
  · exact Nat.zero_le _
  · exact (Nat.le_log2 (by omega)).mpr (Nat.le_trans (Nat.log2_self_le (by omega)) h)

/-- What is left of a quotient after a shift has at least 53 bits. -/
theorem le_whole (h : 0 < (num / den).log2 - 52) :
    twoTo 52 ≤ num / (den * twoTo ((num / den).log2 - 52)) := by
  have hne : num / den ≠ 0 := by
    intro hzero
    rw [hzero] at h
    exact absurd h (by decide)
  rw [← Nat.div_div_eq_div_mul, Nat.le_div_iff_mul_le (twoTo_pos _), ← twoTo_add, Nat.add_sub_cancel' (by omega)]
  exact Nat.log2_self_le hne

/-- Rounding keeps the order, among results with one exponent by their fractions, and otherwise by the exponents. -/
theorem roundUnits_mono {a b : Nat} (h : a ≤ b) (den : Nat) : roundUnits a den ≤ roundUnits b den := by
  have hlog := log2_mono (Nat.div_le_div_right (c := den) h)
  rw [roundUnits_eq, roundUnits_eq]
  suffices hbits : ((a / den).log2 - 52) * twoTo 52 + roundHalfEven a (den * twoTo ((a / den).log2 - 52)) ≤
      ((b / den).log2 - 52) * twoTo 52 + roundHalfEven b (den * twoTo ((b / den).log2 - 52)) by omega
  rcases Nat.lt_or_eq_of_le (Nat.sub_le_sub_right hlog 52) with hlt | heq
  · have hexponent := Nat.mul_le_mul_right (twoTo 52) (Nat.succ_le_of_lt hlt)
    have ha := roundHalfEven_le a (den * twoTo ((a / den).log2 - 52))
    have hwhole := whole_lt a den
    have hb := le_roundHalfEven b (den * twoTo ((b / den).log2 - 52))
    have hleast := @le_whole b den (by omega)
    have h53 : twoTo 53 = twoTo 52 + twoTo 52 := by decide
    rw [Nat.succ_mul] at hexponent
    omega
  · rw [heq]
    exact Nat.add_le_add_left (roundHalfEven_mono h _) _

theorem unitsOf_mono {a b : Nat} (h : a ≤ b) : unitsOf a ≤ unitsOf b := by
  have hexponent : a / twoTo 52 ≤ b / twoTo 52 := Nat.div_le_div_right h
  have hpos := twoTo_pos (b / twoTo 52 - 1)
  unfold unitsOf
  split
  · rename_i ha
    have hlt := (Nat.div_eq_zero_iff_lt (twoTo_pos 52)).mp ha
    split
    · exact h
    · calc a ≤ b % twoTo 52 + twoTo 52 := by omega
        _ ≤ (b % twoTo 52 + twoTo 52) * twoTo (b / twoTo 52 - 1) := Nat.le_mul_of_pos_right _ hpos
  · rename_i ha
    have hb : b / twoTo 52 ≠ 0 := Nat.ne_of_gt (Nat.lt_of_lt_of_le (Nat.pos_of_ne_zero ha) hexponent)
    rw [if_neg hb]
    rcases Nat.lt_or_eq_of_le hexponent with hlt | heq
    · have hmod := Nat.mod_lt a (twoTo_pos 52)
      obtain ⟨k, hk⟩ := Nat.exists_eq_succ_of_ne_zero ha
      calc (a % twoTo 52 + twoTo 52) * twoTo (a / twoTo 52 - 1)
        _ ≤ twoTo 52 * 2 * twoTo (a / twoTo 52 - 1) := Nat.mul_le_mul_right _ (by omega)
        _ = twoTo 52 * twoTo (a / twoTo 52) := by
          rw [hk, Nat.succ_sub_one, Nat.mul_assoc, Nat.mul_comm 2, ← twoTo_succ]
        _ ≤ twoTo 52 * twoTo (b / twoTo 52 - 1) := Nat.mul_le_mul_left _ (twoTo_mono (by omega))
        _ ≤ (b % twoTo 52 + twoTo 52) * twoTo (b / twoTo 52 - 1) := Nat.mul_le_mul_right _ (Nat.le_add_left _ _)
    · have hmod : a % twoTo 52 ≤ b % twoTo 52 := by
        have ha := Nat.div_add_mod a (twoTo 52)
        have hb := Nat.div_add_mod b (twoTo 52)
        rw [heq] at ha
        omega
      rw [heq]
      exact Nat.mul_le_mul_right _ (Nat.add_le_add_right hmod _)

/-- The units of the double that is nearest to a whole number of units. -/
def nearestUnits (u : Int) : Int := (ofUnits (u < 0) u.natAbs 1).units

theorem nearestUnits_eq (u : Int) : nearestUnits u =
    if u < 0 then -(unitsOf (roundUnits u.natAbs 1) : Int) else unitsOf (roundUnits u.natAbs 1) := by
  rw [nearestUnits, ofUnits, units_withSign _ (roundUnits_le _ _)]
  simp only [decide_eq_true_eq]

theorem nearestUnits_mono {u v : Int} (h : u ≤ v) : nearestUnits u ≤ nearestUnits v := by
  have hmono : ∀ {a b : Nat}, a ≤ b → unitsOf (roundUnits a 1) ≤ unitsOf (roundUnits b 1) :=
    fun hab => unitsOf_mono (roundUnits_mono hab 1)
  rw [nearestUnits_eq, nearestUnits_eq]
  split <;> split
  · have hle := hmono (a := v.natAbs) (b := u.natAbs) (by omega)
    omega
  · omega
  · omega
  · have hle := hmono (a := u.natAbs) (b := v.natAbs) (by omega)
    omega

theorem nearestUnits_units (h : x.isFinite = true) : nearestUnits x.units = x.units := by
  have hbits : x.unsignedBits < infinityBits := by simpa [isFinite] using h
  have hround : unitsOf (roundUnits x.magnitude 1) = x.magnitude := congrArg unitsOf (roundUnits_unitsOf hbits)
  have habs : x.units.natAbs = x.magnitude := by
    unfold units
    split <;> omega
  rw [nearestUnits_eq, habs, hround, units]
  split <;> split <;> omega

theorem units_ofInt_eq_nearestUnits (n : Int) : (ofInt n).units = nearestUnits (n * unitsPerOne) := by
  have hscaled : ∀ c : Nat, 0 < c → nearestUnits (n * c) = (ofUnits (n < 0) (n.natAbs * c) 1).units := by
    intro c hc
    have hsign : n * c < 0 ↔ n < 0 := by
      have hmul : n * c < 0 * c ↔ n < 0 := Int.mul_lt_mul_right (Int.natCast_pos.mpr hc)
      rwa [Int.zero_mul] at hmul
    rw [nearestUnits, Int.natAbs_mul, Int.natAbs_natCast, decide_eq_decide.mpr hsign]
  exact (hscaled unitsPerOne unitsPerOne_pos).symm

end EntityStore.Double
