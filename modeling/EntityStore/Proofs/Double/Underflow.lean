import EntityStore.Proofs.Double.Rounding

/-!
# Numbers near zero

Below `2 ^ -1022` the doubles are the multiples of `2 ^ -1074`. So what is at most half of that rounds to zero, and all
else to another number. Main statement: `unsignedBits_ofDecimal_eq_zero_iff`.
-/
namespace EntityStore.Double

variable {num den bits : Nat}

theorem unitsOf_eq_zero_iff : unitsOf bits = 0 ↔ bits = 0 := by
  have hpos := twoTo_pos 52
  constructor
  · intro h
    unfold unitsOf at h
    split at h
    · exact h
    · rcases Nat.mul_eq_zero.mp h with hzero | hzero
      · omega
      · exact absurd hzero (Nat.ne_of_gt (twoTo_pos _))
  · rintro rfl
    decide

/-! ## Quotients -/

/-- A quotient of at most 52 bits is rounded to an integer. -/
theorem roundUnits_of_div_lt (h : num / den < twoTo 52) : roundUnits num den = roundHalfEven num den := by
  have hshift : (num / den).log2 - 52 = 0 := by
    have hle : (num / den).log2 - 52 ≤ 0 := shift_le (Nat.lt_of_lt_of_le h (twoTo_mono (by decide)))
    omega
  have hone : twoTo 0 = 1 := rfl
  have hround := roundHalfEven_le num den
  have hbound : twoTo 52 ≤ infinityBits := by decide
  rw [roundUnits_eq, hshift, hone, Nat.mul_one, Nat.zero_mul, Nat.zero_add]
  exact Nat.min_eq_right (by omega)

/-- Half a unit is rounded to zero, which is even. -/
theorem roundUnits_eq_zero_iff (hden : 0 < den) : roundUnits num den = 0 ↔ 2 * num ≤ den := by
  rcases Nat.lt_or_ge num den with hlt | hge
  · have hdiv : num / den = 0 := Nat.div_eq_of_lt hlt
    have hround : roundUnits num den = roundHalfEven num den := by
      apply roundUnits_of_div_lt
      rw [hdiv]
      exact twoTo_pos 52
    simp only [hround, roundHalfEven, hdiv, Nat.mod_eq_of_lt hlt, Bool.or_eq_true, Bool.and_eq_true, decide_eq_true_eq,
      beq_iff_eq]
    split <;> omega
  · have hself : den / den = 1 := Nat.div_self hden
    have hone : roundUnits den den = roundHalfEven den den := by
      apply roundUnits_of_div_lt
      rw [hself]
      decide
    have hle := le_roundHalfEven den den
    have hmono := roundUnits_mono hge den
    omega

/-! ## Decimal numerals -/

variable {digits : Nat} {exponent : Int}

theorem ofDecimal_eq_withSign (negative : Bool) (digits : Nat) (exponent : Int) :
    ofDecimal negative digits exponent = withSign negative (ofDecimal negative digits exponent).unsignedBits := by
  unfold ofDecimal
  split
  · rw [unsignedBits_withSign _ (Nat.zero_le _)]
  split
  · rw [unsignedBits_withSign _ (Nat.le_refl _)]
  · rw [ofUnits, unsignedBits_withSign _ (roundUnits_le _ _)]

/-- Exactly the numbers up to half the least positive double are read as zero. -/
theorem unsignedBits_ofDecimal_eq_zero_iff (negative : Bool) :
    (ofDecimal negative digits exponent).unsignedBits = 0 ↔ (digits * 10 ^ exponent : ℚ) ≤ 1 / 2 ^ 1075 := by
  obtain ⟨hbits, hsmall⟩ | ⟨hbits, hlarge⟩ | ⟨num, den, hden, hbits, hvalue⟩ :=
    ofDecimal_cases negative digits exponent
  · exact iff_of_true hbits hsmall
  · have hone : (1 : ℚ) ≤ 2 ^ 1024 := one_le_pow₀ one_le_two
    have htiny : (1 : ℚ) / 2 ^ 54 < 1 := by norm_num
    rw [hbits]
    exact iff_of_false (by decide) (not_le.mpr (one_div_pow_le.trans_lt (htiny.trans_le (hone.trans hlarge))))
  · have hden' : (0 : ℚ) < den := Nat.cast_pos.mpr hden
    have hhalf : (1 : ℚ) / 2 ^ 1075 = 1 / 2 / unitsPerOne := by
      rw [unitsPerOne, twoTo_eq, Nat.cast_pow, Nat.cast_ofNat, div_div, ← pow_succ']
    rw [hbits, roundUnits_eq_zero_iff hden, ← hvalue, hhalf, div_le_div_iff_of_pos_right unitsPerOne_pos',
      div_le_div_iff₀ hden' two_pos, one_mul, mul_comm]
    norm_cast

end EntityStore.Double
