import EntityStore.Proofs.Double.Underflow
import EntityStore.Proofs.Filter.Comparison
import EntityStore.Proofs.Schema.SingleBudget

/-!
# Comparisons of doubles with numbers near zero

A double other than zero has a least magnitude, and what is written below it is out of range. The check is made on the
number that is read: what is at most half of the least positive double is read as zero, and zero is in range. Main
statement: `read_compare_tiny`.
-/
namespace EntityStore.Filter

open Double

/-- Powers of ten under a fraction against powers of two. -/
theorem div_tenTo_le_iff (digits m n : Nat) :
    (digits : ℚ) / 10 ^ m ≤ 1 / 2 ^ n ↔ digits * twoTo n ≤ Decimal.tenTo m := by
  have htwo : (twoTo n : ℚ) = 2 ^ n := by rw [twoTo_eq, Nat.cast_pow, Nat.cast_ofNat]
  have hten : (Decimal.tenTo m : ℚ) = 10 ^ m := by rw [tenTo_eq, Nat.cast_pow, Nat.cast_ofNat]
  rw [div_le_div_iff₀ (by positivity) (by positivity), one_mul, ← htwo, ← hten, ← Nat.cast_mul, Nat.cast_le]

/-- What is read as zero is below `2.2e-308`. -/
theorem tiny_lt {value : ℚ} (h : value ≤ 1 / 2 ^ 1075) : value < 22 / 10 ^ 309 := by
  have hlt : ¬ ((22 : ℕ) : ℚ) / 10 ^ 309 ≤ 1 / 2 ^ 1075 := mt (div_tenTo_le_iff _ _ _).mp (by decide +kernel)
  exact h.trans_lt (not_le.mp hlt)

namespace NumericWord

variable {w : NumericWord}

/-- A word of a double: a fraction or an exponent without a suffix, or the suffix of a double. -/
def IsDouble (w : NumericWord) : Prop :=
  w.suffix = [] ∧ w.isIntegral = false ∨ w.suffix = ['d'] ∨ w.suffix = ['D']

theorem toDouble_eq_withSign (w : NumericWord) : w.toDouble = withSign w.negative w.toDouble.unsignedBits :=
  ofDecimal_eq_withSign _ _ _

/-- Below the least magnitude only zero is in range. -/
theorem double_toDouble_iff (hsmall : |w.numeral.value| < 22 / 10 ^ 309) :
    Range.double w.toDouble = true ↔ |w.numeral.value| ≤ 1 / 2 ^ 1075 := by
  constructor
  · intro h
    rcases Range.nearDouble_of_double h with hzero | ⟨hmin, -⟩
    · exact hzero
    · have hleast : (22 : ℚ) / 10 ^ 309 ≤ 22299999999999995 / 10 ^ 324 := by
        have hsplit : (10 : ℚ) ^ 324 = 10 ^ 15 * 10 ^ 309 := by rw [← pow_add]
        rw [div_le_div_iff₀ (by positivity) (by positivity), hsplit, ← mul_assoc]
        exact mul_le_mul_of_nonneg_right (by norm_num) (by positivity)
      exact absurd (hmin.trans hsmall) (not_lt.mpr hleast)
  · intro h
    exact (Range.double_iff (isNaN_ofNumeral w.numeral)).mpr (.inl (magnitude_ofNumeral_eq_zero_iff.mpr h))

end NumericWord

variable {schema : Schema} {entityType name text : String} {p : Property} {w : NumericWord}

theorem readNumber?_of_isDouble (hread : NumericWord.read? text.toList = some w) (hdouble : w.IsDouble) :
    readNumber? text = some (.ok (.double w.toDouble text)) := by
  simp only [readNumber?, hread]
  rcases hdouble with ⟨hsuffix, hintegral⟩ | hsuffix | hsuffix
  · simp [hsuffix, hintegral]
  · simp [hsuffix]
  · simp [hsuffix]

theorem read_compare_of_isDouble (hsubject : Subject schema entityType name p) (htype : p.type = .double)
    (op : Comparator) (hread : NumericWord.read? text.toList = some w) (hdouble : w.IsDouble) :
    TypedFilter.read schema entityType (name ++ " " ++ op.word ++ " " ++ text) =
      if Range.double w.toDouble = true then .ok (.compare p.use op (.double w.toDouble))
      else .error (.typing (.outOfRange p.name .double text)) := by
  have hdeclared : p.type ≠ .undeclared := by
    rw [htype]
    decide
  have hordered : p.type.isOrdered = true := by
    rw [htype]
    decide
  have heffective : p.use.effective = .double := htype
  rw [read_compare_number hsubject hdeclared hordered op (readNumber?_of_isDouble hread hdouble)]
  simp only [coerce, heffective]
  split <;> rfl

/-- What is read is zero exactly up to half of the least positive double. Of the numbers below `2.2e-308`, a comparison
takes these, as a zero of their sign, and the others are out of range. -/
theorem read_compare_tiny (hsubject : Subject schema entityType name p) (htype : p.type = .double) (op : Comparator)
    (hread : NumericWord.read? text.toList = some w) (hdouble : w.IsDouble) :
    (w.toDouble.magnitude = 0 ↔ |w.numeral.value| ≤ 1 / 2 ^ 1075) ∧
    (|w.numeral.value| < 22 / 10 ^ 309 →
      TypedFilter.read schema entityType (name ++ " " ++ op.word ++ " " ++ text) =
        if |w.numeral.value| ≤ 1 / 2 ^ 1075 then .ok (.compare p.use op (.double (withSign w.negative 0)))
        else .error (.typing (.outOfRange p.name .double text))) := by
  refine ⟨magnitude_ofNumeral_eq_zero_iff, fun hsmall => ?_⟩
  rw [read_compare_of_isDouble hsubject htype op hread hdouble]
  by_cases hzero : |w.numeral.value| ≤ 1 / 2 ^ 1075
  · have hbits : w.toDouble.unsignedBits = 0 := unsignedBits_ofNumeral_eq_zero_iff.mpr hzero
    rw [if_pos ((NumericWord.double_toDouble_iff hsmall).mpr hzero), if_pos hzero, w.toDouble_eq_withSign, hbits]
  · rw [if_neg (mt (NumericWord.double_toDouble_iff hsmall).mp hzero), if_neg hzero]

/-- A number that is read as a subnormal is out of range, and one that is read as zero is not. -/
theorem read_compare_tiny_ratio :
    let schema := Schema.empty.register ((EntityType.named "Sales").declare (.declared "Sales" "ratio" .double))
    TypedFilter.read schema "Sales" "ratio lt 1e-309d" = .error (.typing (.outOfRange "ratio" .double "1e-309d")) ∧
      TypedFilter.read schema "Sales" "ratio ge -0.1e-399" =
        .ok (.compare ⟨"ratio", .double, .double, .scalar⟩ .ge (.double (withSign true 0))) := by
  intro schema
  have hratio : Subject schema "Sales" "ratio" (.declared "Sales" "ratio" .double) :=
    ⟨⟨by decide, by decide, by decide, by decide⟩, by decide, rfl⟩
  let subnormal : NumericWord := ⟨false, ['1'], none, some (-309), ['d']⟩
  let zero : NumericWord := ⟨true, ['0'], some ['1'], some (-399), []⟩
  have hsubnormal : |subnormal.numeral.value| = (1 : ℕ) / 10 ^ 309 := Decimal.Numeral.abs_value_neg false 1 309
  have hzero : |zero.numeral.value| = (1 : ℕ) / 10 ^ 400 := Decimal.Numeral.abs_value_neg true 1 400
  have hleast : ((1 : ℕ) : ℚ) / 10 ^ 400 ≤ 1 / 2 ^ 1075 := (div_tenTo_le_iff 1 400 1075).mpr (by decide +kernel)
  have hreads : NumericWord.read? "1e-309d".toList = some subnormal := by decide
  have hreads' : NumericWord.read? "-0.1e-399".toList = some zero := by decide
  obtain ⟨-, hread⟩ := read_compare_tiny hratio rfl .lt hreads (.inr (.inl rfl))
  obtain ⟨-, hread'⟩ := read_compare_tiny hratio rfl .ge hreads' (.inl ⟨rfl, rfl⟩)
  rw [hsubnormal, if_neg (mt (div_tenTo_le_iff 1 309 1075).mp (by decide +kernel))] at hread
  rw [hzero, if_pos hleast] at hread'
  exact ⟨hread (div_lt_div_of_pos_right (by norm_num) (by positivity)), hread' (tiny_lt hleast)⟩

/-- A number other than zero, far below the least magnitude, is taken for zero. -/
theorem read_compare_underflow :
    let schema := Schema.empty.register ((EntityType.named "Sales").declare (.declared "Sales" "ratio" .double))
    ∃ w, NumericWord.read? "1e-400".toList = some w ∧ w.IsDouble ∧ w.whole = ['1'] ∧ w.numeral.value ≠ 0 ∧
      |w.numeral.value| < 22 / 10 ^ 309 ∧ w.toDouble.magnitude = 0 ∧
      TypedFilter.read schema "Sales" "ratio eq 1e-400" =
        .ok (.compare ⟨"ratio", .double, .double, .scalar⟩ .eq (.double w.toDouble)) := by
  intro schema
  have hratio : Subject schema "Sales" "ratio" (.declared "Sales" "ratio" .double) :=
    ⟨⟨by decide, by decide, by decide, by decide⟩, by decide, rfl⟩
  let w : NumericWord := ⟨false, ['1'], none, some (-400), []⟩
  have hvalue : |w.numeral.value| = (1 : ℕ) / 10 ^ 400 := Decimal.Numeral.abs_value_neg false 1 400
  have hreads : NumericWord.read? "1e-400".toList = some w := by decide
  have hdouble : w.IsDouble := .inl ⟨rfl, rfl⟩
  have hleast : ((1 : ℕ) : ℚ) / 10 ^ 400 ≤ 1 / 2 ^ 1075 := (div_tenTo_le_iff 1 400 1075).mpr (by decide +kernel)
  have hsmall : |w.numeral.value| < 22 / 10 ^ 309 := hvalue.trans_lt (tiny_lt hleast)
  have hzero : |w.numeral.value| ≤ 1 / 2 ^ 1075 := hvalue.trans_le hleast
  have hnonzero : w.numeral.value ≠ 0 := by
    rw [← abs_pos, hvalue]
    positivity
  refine ⟨w, hreads, hdouble, rfl, hnonzero, hsmall, magnitude_ofNumeral_eq_zero_iff.mpr hzero, ?_⟩
  have hread := read_compare_of_isDouble hratio rfl .eq hreads hdouble
  rwa [if_pos ((NumericWord.double_toDouble_iff hsmall).mpr hzero)] at hread

end EntityStore.Filter
