import EntityStore.Proofs.Filter.IntegerText

/-!
# The shape of numbers

A word is a number by its shape alone: an optional minus, digits, an optional fraction, an optional exponent and at
most one letter, where that of a long follows an integer. Each part ends where the next can begin, so that the reader
takes a number apart as it was put together, and nothing else is read. Main statement: `readNumber?_shape`.
-/
namespace EntityStore.Filter

open Decimal (ExponentText)

/-- The letters that can follow any number. -/
def classLetters : List Char := ['d', 'D', 'f', 'F', 'm', 'M']

/-- A number as written: the parts of an integer, a fraction, an exponent and a letter, each of the last three or none. -/
structure NumberText extends IntegerText where
  fraction : Option (List Char)
  exponent : Option ExponentText
  suffix : Option Char
  isDigits_fraction : ∀ digits, fraction = some digits → Decimal.isDigits digits = true
  suffix_cases : ∀ c, suffix = some c → c ∈ classLetters ∨ (c = 'l' ∨ c = 'L') ∧ fraction = none ∧ exponent = none

namespace NumberText

def fractionChars (n : NumberText) : List Char := n.fraction.elim [] ('.' :: ·)

def exponentChars (n : NumberText) : List Char := n.exponent.elim [] ExponentText.chars

/-- The number without its letter. -/
def number (n : NumberText) : List Char := n.toIntegerText.text.toList ++ (n.fractionChars ++ n.exponentChars)

def text (n : NumberText) : String := .ofList (n.number ++ n.suffix.toList)

/-- The parts that are read of a number. -/
def word (n : NumberText) : NumericWord :=
  ⟨n.negative, n.digits, n.fraction, n.exponent.map ExponentText.value, n.suffix.toList⟩

variable {n : NumberText}

/-! ## Where the parts end -/

theorem suffix_head {c : Char} (h : n.suffix.toList.head? = some c) :
    c.isDigit = false ∧ c ≠ '.' ∧ c ≠ 'e' ∧ c ≠ 'E' := by
  have hletters : ∀ c ∈ classLetters ++ ['l', 'L'], c.isDigit = false ∧ c ≠ '.' ∧ c ≠ 'e' ∧ c ≠ 'E' := by
    simp [classLetters]
  apply hletters
  have hsuffix : n.suffix = some c := by
    cases hn : n.suffix <;> simp_all
  rcases n.suffix_cases c hsuffix with hc | ⟨hc, _⟩
  · exact List.mem_append_left _ hc
  · simpa using Or.inr hc

/-- What follows the digits of an integer or of a fraction is neither a digit nor a point. -/
theorem exponent_head {c : Char} (h : (n.exponentChars ++ n.suffix.toList).head? = some c) :
    c.isDigit = false ∧ c ≠ '.' := by
  cases hexponent : n.exponent with
  | none =>
    obtain ⟨hdigit, hpoint, _⟩ := suffix_head (n := n) (c := c) (by simpa [exponentChars, hexponent] using h)
    exact ⟨hdigit, hpoint⟩
  | some e =>
    obtain rfl : e.letter = c := by simpa [exponentChars, hexponent, ExponentText.chars] using h
    rcases e.isLetter with hletter | hletter <;> rw [hletter] <;> decide

theorem fraction_head {c : Char} (h : (n.fractionChars ++ (n.exponentChars ++ n.suffix.toList)).head? = some c) :
    c.isDigit = false := by
  cases hfraction : n.fraction with
  | none => exact (exponent_head (n := n) (by simpa [fractionChars, hfraction] using h)).1
  | some digits =>
    obtain rfl : '.' = c := by simpa [fractionChars, hfraction] using h
    decide

/-! ## Reading a number -/

theorem readFraction?_chars (n : NumberText) :
    NumericWord.readFraction? (n.fractionChars ++ (n.exponentChars ++ n.suffix.toList)) =
      some (n.fraction, n.exponentChars ++ n.suffix.toList) := by
  cases hfraction : n.fraction with
  | none =>
    simp only [fractionChars, hfraction, Option.elim_none, List.nil_append]
    unfold NumericWord.readFraction?
    split
    · rename_i heq
      exact absurd rfl (exponent_head (n := n) (by rw [heq]; rfl)).2
    · rfl
  | some digits =>
    obtain ⟨hne, hall⟩ := Decimal.isDigits_iff.mp (n.isDigits_fraction digits hfraction)
    have hspan := spanDigits_append hall fun c hc => (exponent_head (n := n) hc).1
    simp [fractionChars, hfraction, NumericWord.readFraction?, hspan, hne]

theorem readExponent?_chars (n : NumberText) :
    Decimal.readExponent? (n.exponentChars ++ n.suffix.toList) =
      some (n.exponent.map ExponentText.value, n.suffix.toList) := by
  cases hexponent : n.exponent with
  | none =>
    cases hsuffix : n.suffix with
    | none => simp [exponentChars, hexponent, Decimal.readExponent?]
    | some c =>
      obtain ⟨_, _, hlower, hupper⟩ := suffix_head (n := n) (c := c) (by simp [hsuffix])
      simp [exponentChars, hexponent, Decimal.readExponent?, hlower, hupper]
  | some e => simpa [exponentChars, hexponent] using e.readExponent?_append fun c hc => (suffix_head (n := n) hc).1

theorem read?_text (n : NumberText) : NumericWord.read? n.text.toList = some n.word := by
  have hspan : Decimal.spanDigits (n.digits ++ (n.fractionChars ++ (n.exponentChars ++ n.suffix.toList))) =
      (n.digits, n.fractionChars ++ (n.exponentChars ++ n.suffix.toList)) :=
    spanDigits_append (Decimal.isDigits_iff.mp n.isDigits).2 fun c hc => fraction_head (n := n) hc
  have hne : n.digits ≠ [] := (Decimal.isDigits_iff.mp n.isDigits).1
  have hhead := digits_append_ne n.isDigits (by decide : ('-').isDigit = false)
    (n.fractionChars ++ (n.exponentChars ++ n.suffix.toList))
  rw [text, String.toList_ofList, number, IntegerText.toList_text]
  cases hnegative : n.negative with
  | true =>
    simp [NumericWord.read?, hspan, hne, readFraction?_chars, readExponent?_chars, word, hnegative]
  | false =>
    simp [NumericWord.read?, hspan, hne, readFraction?_chars, readExponent?_chars, word, hnegative]

@[simp] theorem toInt_word (n : NumberText) : n.word.toInt = n.value := rfl

theorem suffix_word (n : NumberText) : n.word.suffix = n.suffix.toList := rfl

theorem isIntegral_word : n.word.isIntegral = true ↔ n.fraction = none ∧ n.exponent = none := by
  simp [NumericWord.isIntegral, word]

theorem number_eq (n : NumberText) :
    n.number = n.word.sign ++ (n.word.whole ++ (n.word.fractionText ++ n.exponentChars)) := by
  rw [number, IntegerText.toList_text, List.append_assoc]
  cases hfraction : n.fraction <;>
    simp [word, NumericWord.sign, NumericWord.fractionText, fractionChars, hfraction]

/-- The parts of a number spell its word. -/
theorem spells (n : NumberText) : n.word.Spells n.exponentChars n.text.toList where
  whole := n.isDigits
  fraction := n.isDigits_fraction
  exponent := by
    cases hexponent : n.exponent with
    | none => exact .inl ⟨by simp [word, hexponent], by simp [exponentChars, hexponent]⟩
    | some e =>
      exact .inr ⟨e.value, by simp [word, hexponent], by simpa [exponentChars, hexponent] using e.isExponent⟩
  chars := by
    rw [text, String.toList_ofList, number_eq, suffix_word]
    simp

/-- What stands before the letter is read as a real numeral, that of the word. -/
theorem readNumeral?_number (n : NumberText) : Decimal.readNumeral? n.number = some n.word.numeral := by
  rw [number_eq, n.spells.readNumeral?_sign]

/-- A number without fraction and exponent is read as the double nearest to its integer. -/
theorem toDouble_word (hfraction : n.fraction = none) (hexponent : n.exponent = none) (hzero : n.value ≠ 0) :
    n.word.toDouble = .ofInt n.value := by
  have hdigits : Decimal.ofDigits n.digits ≠ 0 := by
    intro hdigits
    exact hzero (by simp [IntegerText.value, hdigits])
  have hsign : decide (n.value < 0) = n.negative ∧ n.value.natAbs = Decimal.ofDigits n.digits := by
    cases hnegative : n.negative with
    | true =>
      simp [IntegerText.value, hnegative]
      omega
    | false => simp [IntegerText.value, hnegative]
  have hscale : Decimal.tenTo 0 = 1 := rfl
  simp [NumericWord.toDouble, NumericWord.numeral, word, hfraction, hexponent, Double.ofNumeral, Double.ofDecimal,
    Double.ofInt, hsign, hdigits, hscale]

end NumberText

/-! ## Shapes of words -/

namespace NumericWord

/-- Nothing follows the number, or the letter of a class that any number can have. -/
def EndsAnywhere (w : NumericWord) : Prop := w.suffix = [] ∨ ∃ c ∈ classLetters, w.suffix = [c]

/-- The letter of a long follows. -/
def EndsLong (w : NumericWord) : Prop := w.suffix = ['l'] ∨ w.suffix = ['L']

end NumericWord

variable {word : String} {w : NumericWord} {fault : Fault}

theorem exists_readNumber?_of_endsAnywhere (hread : NumericWord.read? word.toList = some w) (h : w.EndsAnywhere) :
    ∃ literal, readNumber? word = some (.ok literal) := by
  simp only [readNumber?, hread]
  rcases h with h | ⟨c, hc, h⟩
  · rw [h]
    simp only
    split <;> simp
  · simp only [classLetters, List.mem_cons, List.not_mem_nil, or_false] at hc
    rcases hc with rfl | rfl | rfl | rfl | rfl | rfl <;> simp [h]

theorem readNumber?_of_endsLong (hread : NumericWord.read? word.toList = some w) (h : w.EndsLong) :
    readNumber? word = if w.isIntegral then
      some (if Decimal.fitsInt64 w.toInt then .ok (.long w.toInt) else .error (.longRange word)) else none := by
  simp only [readNumber?, hread]
  rcases h with h | h
  · rw [h]
    cases w.isIntegral <;> cases Decimal.fitsInt64 w.toInt <;> rfl
  · rw [h]
    cases w.isIntegral <;> cases Decimal.fitsInt64 w.toInt <;> rfl

theorem readNumber?_of_ends (hread : NumericWord.read? word.toList = some w) (h : ¬ w.EndsAnywhere)
    (hlong : ¬ w.EndsLong) : readNumber? word = none := by
  simp only [NumericWord.EndsAnywhere, NumericWord.EndsLong, classLetters, List.mem_cons, List.not_mem_nil, or_false,
    exists_eq_or_imp, exists_eq_left, not_or] at h hlong
  simp only [readNumber?, hread]
  split <;> simp_all

/-- What has the parts of a number and ends as one is written as a number. -/
theorem exists_text_of_ends (hread : NumericWord.read? word.toList = some w)
    (hend : w.EndsAnywhere ∨ w.EndsLong ∧ w.isIntegral = true) :
    ∃ n : NumberText, n.text = word ∧ n.word = w := by
  obtain ⟨hwhole, hfraction, e, hvalue, hchars⟩ := NumericWord.exists_parts hread
  obtain ⟨suffix, hsuffix, hcases⟩ : ∃ suffix : Option Char, w.suffix = suffix.toList ∧
      ∀ c, suffix = some c → c ∈ classLetters ∨ (c = 'l' ∨ c = 'L') ∧ w.fraction = none ∧ e = none := by
    rcases hend with (hnil | ⟨c, hc, hletter⟩) | ⟨hlong, hintegral⟩
    · exact ⟨none, hnil, by simp⟩
    · exact ⟨some c, hletter, by simp [hc]⟩
    · have hparts : w.fraction = none ∧ e = none := by
        simpa [NumericWord.isIntegral, hvalue] using hintegral
      rcases hlong with hlong | hlong
      · exact ⟨some 'l', hlong, by simp [hparts]⟩
      · exact ⟨some 'L', hlong, by simp [hparts]⟩
  let n : NumberText := ⟨⟨w.negative, w.whole, hwhole⟩, w.fraction, e, suffix, hfraction, hcases⟩
  have hword : n.word = w := by
    simp only [NumberText.word, n, ← hvalue, ← hsuffix]
  refine ⟨n, String.toList_inj.mp ?_, hword⟩
  rw [n.spells.chars, hword, hchars]
  simp [NumberText.exponentChars, n]

namespace NumberText

variable {n : NumberText}

theorem endsLong_word : n.word.EndsLong ↔ n.suffix = some 'l' ∨ n.suffix = some 'L' := by
  rw [NumericWord.EndsLong, suffix_word]
  cases n.suffix <;> simp

theorem isIntegral_of_endsLong (h : n.word.EndsLong) : n.word.isIntegral = true := by
  have hletters : 'l' ∉ classLetters ∧ 'L' ∉ classLetters := by decide
  rw [isIntegral_word]
  rcases endsLong_word.mp h with h | h
  · simpa [hletters] using n.suffix_cases _ h
  · simpa [hletters] using n.suffix_cases _ h

theorem ends_word (n : NumberText) : n.word.EndsAnywhere ∨ n.word.EndsLong ∧ n.word.isIntegral = true := by
  cases hsuffix : n.suffix with
  | none => exact .inl (.inl (by simp [suffix_word, hsuffix]))
  | some c =>
    rcases n.suffix_cases c hsuffix with hc | ⟨hc, hparts⟩
    · exact .inl (.inr ⟨c, hc, by simp [suffix_word, hsuffix]⟩)
    · have hlong : n.word.EndsLong := endsLong_word.mpr (by simpa [hsuffix] using hc)
      exact .inr ⟨hlong, isIntegral_of_endsLong hlong⟩

end NumberText

/-! ## Numbers -/

theorem readNumber?_isSome_iff : (readNumber? word).isSome = true ↔ ∃ n : NumberText, n.text = word := by
  constructor
  · intro hsome
    cases hread : NumericWord.read? word.toList with
    | none => simp [readNumber?, hread] at hsome
    | some w =>
      have hend : w.EndsAnywhere ∨ w.EndsLong ∧ w.isIntegral = true := by
        by_cases hany : w.EndsAnywhere
        · exact .inl hany
        by_cases hlong : w.EndsLong
        · rw [readNumber?_of_endsLong hread hlong] at hsome
          cases hintegral : w.isIntegral with
          | true => exact .inr ⟨hlong, rfl⟩
          | false => simp [hintegral] at hsome
        · simp [readNumber?_of_ends hread hany hlong] at hsome
      obtain ⟨n, htext, -⟩ := exists_text_of_ends hread hend
      exact ⟨n, htext⟩
  · rintro ⟨n, rfl⟩
    rcases n.ends_word with hany | ⟨hlong, hintegral⟩
    · obtain ⟨literal, hliteral⟩ := exists_readNumber?_of_endsAnywhere n.read?_text hany
      rw [hliteral, Option.isSome_some]
    · rw [readNumber?_of_endsLong n.read?_text hlong, if_pos hintegral, Option.isSome_some]

theorem readNumber?_eq_error_iff : readNumber? word = some (.error fault) ↔
    fault = .longRange word ∧ ∃ n : NumberText, n.text = word ∧ (n.suffix = some 'l' ∨ n.suffix = some 'L') ∧
      Decimal.fitsInt64 n.value = false := by
  constructor
  · intro herror
    obtain ⟨n, rfl⟩ := readNumber?_isSome_iff.mp (by rw [herror, Option.isSome_some])
    rcases n.ends_word with hany | ⟨hlong, hintegral⟩
    · obtain ⟨literal, hliteral⟩ := exists_readNumber?_of_endsAnywhere n.read?_text hany
      simp [hliteral] at herror
    · rw [readNumber?_of_endsLong n.read?_text hlong, if_pos hintegral, NumberText.toInt_word] at herror
      cases hfits : Decimal.fitsInt64 n.value with
      | true => simp [hfits] at herror
      | false => exact ⟨by simpa [hfits, eq_comm] using herror, n, rfl, NumberText.endsLong_word.mp hlong, hfits⟩
  · rintro ⟨rfl, n, rfl, hsuffix, hwide⟩
    have hlong : n.word.EndsLong := NumberText.endsLong_word.mpr hsuffix
    rw [readNumber?_of_endsLong n.read?_text hlong, if_pos (NumberText.isIntegral_of_endsLong hlong),
      NumberText.toInt_word, if_neg (by simp [hwide])]

/-- An integer without a letter is of 64 bits or a double. -/
theorem readNumber?_integer {n : NumberText} (hfraction : n.fraction = none) (hexponent : n.exponent = none)
    (hsuffix : n.suffix = none) :
    readNumber? n.text =
      some (.ok (if Decimal.fitsInt64 n.value then .integer n.value else .double (.ofInt n.value) n.text)) := by
  have hintegral : n.word.isIntegral = true := NumberText.isIntegral_word.mpr ⟨hfraction, hexponent⟩
  have hnil : n.word.suffix = [] := by simp [NumberText.suffix_word, hsuffix]
  simp only [readNumber?, n.read?_text, hnil, hintegral, NumberText.toInt_word, Bool.true_and]
  cases hfits : Decimal.fitsInt64 n.value with
  | true => rfl
  | false =>
    have hzero : n.value ≠ 0 := by
      intro hzero
      simp [hzero, Decimal.fitsInt64] at hfits
    simp [NumberText.toDouble_word hfraction hexponent hzero]

theorem readNumber?_eq_single {text : String} {x : Double} (h : readNumber? word = some (.ok (.single x text))) :
    text = word ∧ ∃ w, NumericWord.read? word.toList = some w ∧ x = w.toDouble := by
  unfold readNumber? at h
  split at h
  · cases h
  rename_i w hread
  split at h
  all_goals try split_ifs at h
  all_goals cases h
  all_goals exact ⟨rfl, w, hread, rfl⟩

/-- A float that a number is read as is the numeral before its letter, which is always one. -/
theorem readNumber?_float (n : NumberText) : ∃ numeral, Decimal.readNumeral? n.number = some numeral ∧
    ∀ x text, readNumber? n.text = some (.ok (.double x text)) ∨ readNumber? n.text = some (.ok (.single x text)) →
      x = .ofNumeral numeral ∧ text = n.text := by
  refine ⟨n.word.numeral, n.readNumeral?_number, ?_⟩
  intro x text h
  have hfloat : text = n.text ∧ ∃ w, NumericWord.read? n.text.toList = some w ∧ x = w.toDouble := by
    rcases h with h | h
    · obtain ⟨htext, w, hread, hvalue, -⟩ := readNumber?_eq_double h
      exact ⟨htext, w, hread, hvalue⟩
    · exact readNumber?_eq_single h
  obtain ⟨htext, w, hread, hvalue⟩ := hfloat
  obtain rfl : n.word = w := Option.some.inj (n.read?_text.symm.trans hread)
  exact ⟨hvalue, htext⟩

/-- A word is a number if it has the shape of one, and fails only as a long that does not fit 64 bits; an integer
without a letter is one of 64 bits if it fits and a double otherwise; where a float is read its numeral is one; and the
integers of 64 bits are read from their texts. -/
theorem readNumber?_shape :
    (∀ word, (readNumber? word).isSome = true ↔ ∃ n : NumberText, n.text = word) ∧
    (∀ word fault, readNumber? word = some (.error fault) ↔
      fault = .longRange word ∧ ∃ n : NumberText, n.text = word ∧ (n.suffix = some 'l' ∨ n.suffix = some 'L') ∧
        Decimal.fitsInt64 n.value = false) ∧
    (∀ n : NumberText, n.fraction = none → n.exponent = none → n.suffix = none → readNumber? n.text =
      some (.ok (if Decimal.fitsInt64 n.value then .integer n.value else .double (.ofInt n.value) n.text))) ∧
    (∀ n : NumberText, ∃ numeral, Decimal.readNumeral? n.number = some numeral ∧
      ∀ x text, readNumber? n.text = some (.ok (.double x text)) ∨ readNumber? n.text = some (.ok (.single x text)) →
        x = .ofNumeral numeral ∧ text = n.text) ∧
    (∀ v, Decimal.fitsInt64 v = true → readNumber? (Literal.integer v).text = some (.ok (.integer v)) ∧
      readNumber? (Literal.long v).text = some (.ok (.long v))) := by
  refine ⟨fun _ => readNumber?_isSome_iff, fun _ _ => readNumber?_eq_error_iff,
    fun _ => readNumber?_integer, readNumber?_float, ?_⟩
  intro v hfits
  exact ⟨readNumber?_toString hfits, readNumber?_toString_long hfits⟩

/-- The least integer of 64 bits, the first above the greatest and its long, and a single with fraction and exponent. -/
theorem readNumber?_shape_extremes :
    readNumber? "-9223372036854775808" = some (.ok (.integer (-9223372036854775808))) ∧
      readNumber? "-9223372036854775808L" = some (.ok (.long (-9223372036854775808))) ∧
      readNumber? "9223372036854775808" = some (.ok (.double (.ofInt 9223372036854775808) "9223372036854775808")) ∧
      readNumber? "9223372036854775808l" = some (.error (.longRange "9223372036854775808l")) ∧
      ∃ x, readNumber? "1.50e-2F" = some (.ok (.single x "1.50e-2F")) ∧ x = .ofNumeral ⟨false, 150, -4⟩ := by
  obtain ⟨-, herror, hinteger, hfloat, hwritten⟩ := readNumber?_shape
  obtain ⟨hleast, hleastLong⟩ := hwritten (-9223372036854775808) rfl
  let wide : NumberText := ⟨⟨false, "9223372036854775808".toList, rfl⟩, none, none, none, nofun, nofun⟩
  let wideLong : NumberText := { wide with suffix := some 'l', suffix_cases := by simp [wide] }
  let single : NumberText :=
    ⟨⟨false, ['1'], rfl⟩, some ['5', '0'], some ⟨'e', .minus, ['2'], .inl rfl, rfl⟩, some 'F', by simp [Decimal.isDigits],
      by simp [classLetters]⟩
  have hwide : wide.text = "9223372036854775808" := by decide
  have hwideLong : wideLong.text = "9223372036854775808l" := by decide
  have hdouble := hinteger wide rfl rfl rfl
  rw [hwide] at hdouble
  have hlong := (herror "9223372036854775808l" _).mpr ⟨rfl, wideLong, hwideLong, .inl rfl, by decide⟩
  have hsingle : single.text = "1.50e-2F" := by decide
  have hread : readNumber? "1.50e-2F" = some (.ok (.single single.word.toDouble "1.50e-2F")) := by
    rw [readNumber?, ← hsingle, single.read?_text]
    rfl
  have hvalue : Decimal.readNumeral? single.number = some ⟨false, 150, -4⟩ := by decide
  obtain ⟨numeral, hnumeral, hfloats⟩ := hfloat single
  obtain rfl : ⟨false, 150, -4⟩ = numeral := Option.some.inj (hvalue.symm.trans hnumeral)
  rw [hsingle] at hfloats
  exact ⟨hleast, hleastLong, hdouble, hlong, _, hread, (hfloats _ _ (.inr hread)).1⟩

end EntityStore.Filter
