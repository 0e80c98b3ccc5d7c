import EntityStore.Filter.Typing
import EntityStore.Proofs.Filter.LiteralText

/-!
# The parts of numeric words

What the checks on the text of a number come to in terms of its sign, digits, exponent and suffix. Main statements:
`isIntegerText_iff_isWide`, `singleText_iff_length` and `singleText_toString_iff`.
-/
namespace EntityStore

namespace Decimal

theorem isDigits_iff {cs : List Char} : isDigits cs = true ↔ cs ≠ [] ∧ ∀ c ∈ cs, c.isDigit = true := by
  simp [isDigits]

theorem spanDigits_eq {cs digits rest : List Char} (h : spanDigits cs = (digits, rest)) :
    cs = digits ++ rest ∧ ∀ c ∈ digits, c.isDigit = true := by
  cases h
  exact ⟨List.takeWhile_append_dropWhile.symm, List.all_eq_true.mp List.all_takeWhile⟩

theorem readSign_append {digits : List Char} (h : isDigits digits = true) (rest : List Char) :
    readSign (digits ++ rest) = (false, digits ++ rest) := by
  rw [readSign.eq_def]
  split
  · rename_i heq
    exact absurd heq (Filter.digits_append_ne h (by decide) rest _)
  · rename_i heq
    exact absurd heq (Filter.digits_append_ne h (by decide) rest _)
  · rfl

/-- A sign is read in front of digits. -/
theorem readSign_chars (sign : Sign) {digits : List Char} (h : isDigits digits = true) (rest : List Char) :
    readSign (sign.chars ++ (digits ++ rest)) = (decide (sign = .minus), digits ++ rest) := by
  cases sign with
  | absent => simpa [Sign.chars] using readSign_append h rest
  | plus => simp [Sign.chars, readSign]
  | minus => simp [Sign.chars, readSign]

theorem exists_sign (cs : List Char) :
    ∃ sign : Sign, cs = sign.chars ++ (readSign cs).2 ∧ (readSign cs).1 = decide (sign = .minus) := by
  rw [readSign.eq_def]
  split
  · exact ⟨.minus, rfl, rfl⟩
  · exact ⟨.plus, rfl, rfl⟩
  · exact ⟨.absent, rfl, rfl⟩

theorem Sign.apply_eq (sign : Sign) (n : Nat) :
    sign.apply n = if decide (sign = .minus) = true then -(n : Int) else n := by
  cases sign <;> rfl

/-- An exponent as written: its letter, a sign or none, and digits. -/
structure ExponentText where
  letter : Char
  sign : Sign
  digits : List Char
  isLetter : letter = 'e' ∨ letter = 'E'
  isDigits : isDigits digits = true

namespace ExponentText

def chars (e : ExponentText) : List Char := e.letter :: (e.sign.chars ++ e.digits)

def value (e : ExponentText) : Int := e.sign.apply (ofDigits e.digits)

/-- An exponent ends where its digits do. -/
theorem readExponent?_append (e : ExponentText) {rest : List Char}
    (hrest : ∀ c, rest.head? = some c → c.isDigit = false) :
    readExponent? (e.chars ++ rest) = some (some e.value, rest) := by
  have hletter : (e.letter == 'e' || e.letter == 'E') = true := by simpa using e.isLetter
  have hspan : spanDigits (e.digits ++ rest) = (e.digits, rest) :=
    Filter.spanDigits_append (isDigits_iff.mp e.isDigits).2 hrest
  have hne : e.digits.isEmpty = false := by simp [(isDigits_iff.mp e.isDigits).1]
  simp only [chars, List.cons_append, List.append_assoc, readExponent?, hletter, if_true,
    readSign_chars e.sign e.isDigits, hspan, hne, Bool.false_eq_true, if_false, value, e.sign.apply_eq]

end ExponentText

/-- The text of an exponent starts with its letter and ends in digits. -/
structure IsExponent (text : List Char) (n : Int) : Prop where
  letter : ∃ c rest, text = c :: rest ∧ (c = 'e' ∨ c = 'E')
  digits : ∃ before digits, text = before ++ digits ∧ isDigits digits = true
  reads : readExponent? text = some (some n, [])

theorem ExponentText.isExponent (e : ExponentText) : IsExponent e.chars e.value where
  letter := ⟨e.letter, _, rfl, e.isLetter⟩
  digits := ⟨e.letter :: e.sign.chars, e.digits, rfl, e.isDigits⟩
  reads := by
    have hend : ∀ c : Char, [].head? = some c → c.isDigit = false := by simp
    simpa using e.readExponent?_append hend

/-- What is read as an exponent is one that is written. -/
theorem readExponent?_eq_some {cs rest : List Char} {exponent : Option Int}
    (h : readExponent? cs = some (exponent, rest)) :
    ∃ e : Option ExponentText, cs = e.elim [] ExponentText.chars ++ rest ∧ exponent = e.map ExponentText.value := by
  cases cs with
  | nil =>
    cases h
    exact ⟨none, rfl, rfl⟩
  | cons c cs =>
    by_cases hletter : (c == 'e' || c == 'E') = true
    · obtain ⟨sign, hcs, hsign⟩ := exists_sign cs
      obtain ⟨⟨digits, after⟩, hspan⟩ : ∃ parts, spanDigits (readSign cs).2 = parts := ⟨_, rfl⟩
      obtain ⟨hparts, hall⟩ := spanDigits_eq hspan
      simp only [readExponent?, hletter, if_true, hspan, hsign] at h
      split at h
      · cases h
      · rename_i hempty
        cases h
        have hdigits : isDigits digits = true := isDigits_iff.mpr ⟨by simpa using hempty, hall⟩
        refine ⟨some ⟨c, sign, digits, by simpa using hletter, hdigits⟩, ?_, ?_⟩
        · rw [Option.elim_some, ExponentText.chars, List.cons_append, List.append_assoc, ← hparts, ← hcs]
        · rw [Option.map_some, ExponentText.value, Sign.apply_eq]
    · simp only [readExponent?, hletter, Bool.false_eq_true, if_false] at h
      cases h
      exact ⟨none, rfl, rfl⟩

end Decimal

namespace Filter

namespace NumericWord

def sign (w : NumericWord) : List Char := if w.negative then ['-'] else []

def fractionText (w : NumericWord) : List Char :=
  match w.fraction with
  | none => []
  | some digits => '.' :: digits

/-- The characters are those of the parts, one after the other, with a text for the exponent. -/
structure Spells (w : NumericWord) (text cs : List Char) : Prop where
  whole : Decimal.isDigits w.whole = true
  fraction : ∀ digits, w.fraction = some digits → Decimal.isDigits digits = true
  exponent : (w.exponent = none ∧ text = []) ∨ ∃ n, w.exponent = some n ∧ Decimal.IsExponent text n
  chars : cs = w.sign ++ (w.whole ++ w.fractionText ++ text ++ w.suffix)

theorem readFraction?_eq_some {cs rest : List Char} {fraction : Option (List Char)}
    (h : readFraction? cs = some (fraction, rest)) :
    (fraction = none ∧ rest = cs) ∨
      ∃ digits, fraction = some digits ∧ cs = '.' :: (digits ++ rest) ∧ Decimal.isDigits digits = true := by
  unfold readFraction? at h
  split at h
  · rename_i more
    obtain ⟨⟨digits, after⟩, hspan⟩ : ∃ parts, Decimal.spanDigits more = parts := ⟨_, rfl⟩
    obtain ⟨rfl, hall⟩ := Decimal.spanDigits_eq hspan
    simp only [hspan] at h
    split at h
    · cases h
    · rename_i hempty
      cases h
      exact .inr ⟨digits, rfl, rfl, Decimal.isDigits_iff.mpr ⟨by simpa using hempty, hall⟩⟩
  · cases h
    exact .inl ⟨rfl, rfl⟩

/-- The steps of reading a word. -/
theorem read?_eq_some {w : NumericWord} {cs : List Char} (h : read? cs = some w) :
    ∃ body after rest, cs = w.sign ++ body ∧ Decimal.spanDigits body = (w.whole, after) ∧ w.whole ≠ [] ∧
      readFraction? after = some (w.fraction, rest) ∧ Decimal.readExponent? rest = some (w.exponent, w.suffix) := by
  simp only [read?] at h
  split at h
  all_goals
    split at h
    · cases h
    · rename_i hwhole
      simp only [Option.bind_eq_bind, Option.bind_eq_some_iff, Prod.exists, Option.pure_def,
        Option.some.injEq] at h
      obtain ⟨fraction, rest, hfraction, exponent, suffix, hexponent, rfl⟩ := h
      exact ⟨_, _, rest, rfl, rfl, by simpa using hwhole, hfraction, hexponent⟩

/-- A word that is read is its parts, one after the other. -/
theorem exists_parts {w : NumericWord} {cs : List Char} (h : read? cs = some w) :
    Decimal.isDigits w.whole = true ∧ (∀ digits, w.fraction = some digits → Decimal.isDigits digits = true) ∧
      ∃ e : Option Decimal.ExponentText, w.exponent = e.map Decimal.ExponentText.value ∧
        cs = w.sign ++ (w.whole ++ (w.fractionText ++ (e.elim [] Decimal.ExponentText.chars ++ w.suffix))) := by
  obtain ⟨body, after, rest, rfl, hspan, hne, hfraction, hexponent⟩ := read?_eq_some h
  obtain ⟨rfl, hall⟩ := Decimal.spanDigits_eq hspan
  have hwhole : Decimal.isDigits w.whole = true := Decimal.isDigits_iff.mpr ⟨hne, hall⟩
  obtain ⟨e, rfl, hvalue⟩ := Decimal.readExponent?_eq_some hexponent
  rcases readFraction?_eq_some hfraction with ⟨hnone, hafter⟩ | ⟨digits, hsome, hafter, hdigits⟩
  · exact ⟨hwhole, by simp [hnone], e, hvalue, by simp [fractionText, hnone, hafter]⟩
  · exact ⟨hwhole, by simpa [hsome] using hdigits, e, hvalue, by simp [fractionText, hsome, hafter]⟩

theorem exists_spells {w : NumericWord} {cs : List Char} (h : read? cs = some w) : ∃ text, w.Spells text cs := by
  obtain ⟨hwhole, hfraction, e, hvalue, hchars⟩ := exists_parts h
  refine ⟨e.elim [] Decimal.ExponentText.chars, hwhole, hfraction, ?_, by simpa using hchars⟩
  cases e with
  | none => exact .inl ⟨hvalue, rfl⟩
  | some e => exact .inr ⟨e.value, hvalue, e.isExponent⟩

end NumericWord

/-! ## Wide integers -/

/-- The text is an integer without a suffix that is wider than 64 bits. -/
def IsWide (text : String) : Prop :=
  ∃ w, NumericWord.read? text.toList = some w ∧ w.isIntegral = true ∧ w.suffix = [] ∧
    Decimal.fitsInt64 w.toInt = false

/-- How a word comes to be read as a double. -/
theorem readNumber?_eq_double {word text : String} {x : Double}
    (h : readNumber? word = some (.ok (.double x text))) :
    text = word ∧ ∃ w, NumericWord.read? word.toList = some w ∧ x = w.toDouble ∧
      ((w.suffix = [] ∧ (w.isIntegral && Decimal.fitsInt64 w.toInt) = false) ∨ w.suffix = ['d'] ∨ w.suffix = ['D']) := by
  unfold readNumber? at h
  split at h
  · cases h
  rename_i w hread
  split at h
  · rename_i hsuffix
    split at h
    · cases h
    · rename_i hwide
      cases h
      exact ⟨rfl, w, hread, rfl, .inl ⟨hsuffix, by simpa using hwide⟩⟩
  · rename_i hsuffix
    cases h
    exact ⟨rfl, w, hread, rfl, .inr (.inl hsuffix)⟩
  · rename_i hsuffix
    cases h
    exact ⟨rfl, w, hread, rfl, .inr (.inr hsuffix)⟩
  · cases h
  · cases h
  · cases h
  · cases h
  · split_ifs at h <;> cases h
  · split_ifs at h <;> cases h
  · cases h

theorem exists_word_of_readNumber? {text : String} {x : Double}
    (h : readNumber? text = some (.ok (.double x text))) :
    ∃ w, NumericWord.read? text.toList = some w ∧ x = w.toDouble ∧ ∀ c ∈ w.suffix, Range.isSuffix c = true := by
  obtain ⟨-, w, hread, hx, hsuffix⟩ := readNumber?_eq_double h
  have hletters : ∀ suffix : List Char, suffix.all Range.isSuffix = true → w.suffix = suffix →
      ∀ c ∈ w.suffix, Range.isSuffix c = true := fun _ hall heq => heq ▸ List.all_eq_true.mp hall
  refine ⟨w, hread, hx, ?_⟩
  rcases hsuffix with ⟨hsuffix, -⟩ | hsuffix | hsuffix
  all_goals exact hletters _ (by decide) hsuffix

namespace NumericWord

variable {w : NumericWord} {text cs : List Char}

/-- The sign of a word is its only one. -/
theorem Spells.ne_minus (h : w.Spells text cs) (rest : List Char) :
    w.whole ++ w.fractionText ++ text ++ w.suffix ≠ '-' :: rest := by
  simpa using digits_append_ne h.whole (by decide) (w.fractionText ++ (text ++ w.suffix)) rest

/-- Only digits stand before the suffix if there is neither a fraction nor an exponent. -/
theorem Spells.isIntegral_iff (h : w.Spells text cs) :
    w.isIntegral = true ↔ ∀ c ∈ w.whole ++ w.fractionText ++ text, c.isDigit = true := by
  obtain ⟨_, hwhole⟩ := Decimal.isDigits_iff.mp h.whole
  constructor
  · intro hintegral
    simp only [isIntegral, Bool.and_eq_true, Option.isNone_iff_eq_none] at hintegral
    obtain ⟨hfraction, hexponent⟩ := hintegral
    obtain rfl : text = [] := by simpa [hexponent] using h.exponent
    simpa [fractionText, hfraction] using hwhole
  · intro hall
    have hfraction : w.fraction = none := by
      cases hw : w.fraction with
      | none => rfl
      | some digits =>
        have hpoint : ('.').isDigit = true := hall '.' (by simp [fractionText, hw])
        exact absurd hpoint (by decide)
    have hexponent : w.exponent = none := by
      rcases h.exponent with ⟨hnone, -⟩ | ⟨n, -, htext⟩
      · exact hnone
      · obtain ⟨c, rest, rfl, hletter⟩ := htext.letter
        have hc : c.isDigit = true := hall c (by simp)
        rcases hletter with rfl | rfl <;> exact absurd hc (by decide)
    simp [isIntegral, hfraction, hexponent]

end NumericWord

theorem isIntegerText_iff_isWide {text : String} {x : Double}
    (h : readNumber? text = some (.ok (.double x text))) : isIntegerText text = true ↔ IsWide text := by
  obtain ⟨-, w, hread, -, hsuffix⟩ := readNumber?_eq_double h
  obtain ⟨exponent, hspells⟩ := NumericWord.exists_spells hread
  have hdigits : isIntegerText text = Decimal.isDigits (w.whole ++ w.fractionText ++ exponent ++ w.suffix) := by
    rw [isIntegerText, hspells.chars, NumericWord.sign]
    cases w.negative with
    | true => rfl
    | false =>
      rw [if_neg Bool.false_ne_true, List.nil_append]
      split
      · rename_i heq
        exact absurd heq (hspells.ne_minus _)
      · rfl
  have hne : w.whole ++ w.fractionText ++ exponent ++ w.suffix ≠ [] := by
    simp [(Decimal.isDigits_iff.mp hspells.whole).1]
  rw [hdigits, Decimal.isDigits_iff, and_iff_right hne]
  constructor
  · intro hall
    have hintegral : w.isIntegral = true :=
      hspells.isIntegral_iff.mpr fun c hc => hall c (List.mem_append_left _ hc)
    have hend : ∀ c, w.suffix = [c] → c.isDigit = true := fun c hc => hall c (by simp [hc])
    rcases hsuffix with ⟨hnil, hfits⟩ | hd | hd
    · exact ⟨w, hread, hintegral, hnil, by simpa [hintegral] using hfits⟩
    · exact absurd (hend _ hd) (by decide)
    · exact absurd (hend _ hd) (by decide)
  · rintro ⟨w', hread', hintegral, hnil, -⟩
    obtain rfl : w = w' := Option.some.inj (hread.symm.trans hread')
    simpa [hnil] using hspells.isIntegral_iff.mp hintegral

/-! ## Digits of singles -/

theorem isSuffix_of_isDigit {c : Char} (h : c.isDigit = true) : Range.isSuffix c = false := by
  rw [← Bool.not_eq_true]
  intro hsuffix
  have hletters : "fFdDmMlL".toList.all (fun c => !c.isDigit) = true := by decide
  have hc := List.all_eq_true.mp hletters c (List.contains_iff_mem.mp hsuffix)
  simp [h] at hc

/-- Suffix letters after a digit are cut off. -/
theorem trim_suffix (before : List Char) {digits suffix : List Char} (hdigits : Decimal.isDigits digits = true)
    (hsuffix : ∀ c ∈ suffix, Range.isSuffix c = true) :
    ((before ++ digits ++ suffix).reverse.dropWhile Range.isSuffix).reverse = before ++ digits := by
  obtain ⟨hne, hall⟩ := Decimal.isDigits_iff.mp hdigits
  have hlast : ∀ c, (before ++ digits).reverse.head? = some c → Range.isSuffix c = false := by
    intro c hc
    rw [List.head?_reverse, List.getLast?_append_of_ne_nil _ hne] at hc
    exact isSuffix_of_isDigit (hall c (List.mem_of_getLast? hc))
  have hfront : ∀ c ∈ suffix.reverse, Range.isSuffix c = true := fun c hc => hsuffix c (List.mem_reverse.mp hc)
  rw [List.reverse_append, (span_append hfront hlast).2, List.reverse_reverse]

namespace NumericWord

variable {w : NumericWord} {text cs : List Char}

theorem Spells.ends_in_digits (h : w.Spells text cs) :
    ∃ before digits, w.whole ++ w.fractionText ++ text = before ++ digits ∧ Decimal.isDigits digits = true := by
  rcases h.exponent with ⟨-, rfl⟩ | ⟨n, -, htext⟩
  · cases hfraction : w.fraction with
    | none => exact ⟨[], w.whole, by simp [fractionText, hfraction], h.whole⟩
    | some digits => exact ⟨w.whole ++ ['.'], digits, by simp [fractionText, hfraction], h.fraction digits hfraction⟩
  · obtain ⟨before, digits, rfl, hdigits⟩ := htext.digits
    exact ⟨w.whole ++ w.fractionText ++ before, digits, by simp, hdigits⟩

/-- The letter of an exponent is nowhere but in the exponent. -/
theorem Spells.any_letter (h : w.Spells text cs) :
    ((w.whole ++ w.fractionText ++ text).any fun c => c == 'e' || c == 'E') = w.exponent.isSome := by
  have hdigits : ∀ ds, Decimal.isDigits ds = true → (ds.any fun c => c == 'e' || c == 'E') = false := by
    intro ds hds
    rw [List.any_eq_false]
    intro c hc hletter
    have hdigit := (Decimal.isDigits_iff.mp hds).2 c hc
    simp only [Bool.or_eq_true, beq_iff_eq] at hletter
    rcases hletter with rfl | rfl <;> exact absurd hdigit (by decide)
  have hfraction : (w.fractionText.any fun c => c == 'e' || c == 'E') = false := by
    cases hw : w.fraction with
    | none => simp [fractionText, hw]
    | some digits => simpa [fractionText, hw] using hdigits digits (h.fraction digits hw)
  rw [List.any_append, List.any_append, hdigits _ h.whole, hfraction]
  rcases h.exponent with ⟨hnone, rfl⟩ | ⟨n, hsome, htext⟩
  · simp [hnone]
  · obtain ⟨c, rest, rfl, hletter⟩ := htext.letter
    rcases hletter with rfl | rfl <;> simp [hsome]

theorem Spells.singlePlain_iff (h : w.Spells text cs) :
    Range.singlePlain (w.whole ++ w.fractionText) = true ↔
      w.whole.length ≤ 5 ∧ (w.fraction.getD []).length ≤ 5 := by
  obtain ⟨hne, hall⟩ := Decimal.isDigits_iff.mp h.whole
  have hbefore : ∀ c ∈ w.whole, (c != '.') = true := by
    intro c hc
    have hdigit := hall c hc
    rw [bne_iff_ne]
    rintro rfl
    exact absurd hdigit (by decide)
  have hpoint : ∀ c, w.fractionText.head? = some c → (c != '.') = false := by
    intro c hc
    cases hw : w.fraction with
    | none => simp [fractionText, hw] at hc
    | some digits =>
      obtain rfl : '.' = c := by simpa [fractionText, hw] using hc
      rfl
  obtain ⟨htake, hdrop⟩ := span_append hbefore hpoint
  simp only [Range.singlePlain, htake, hdrop, Range.singleDigits]
  cases hw : w.fraction with
  | none => simpa [fractionText, hw, hne] using fun _ => hall
  | some digits =>
    obtain ⟨hne', hall'⟩ := Decimal.isDigits_iff.mp (h.fraction digits hw)
    simp only [fractionText, hw]
    simp [hne, hne']
    tauto

theorem Spells.readExponent? (h : w.Spells text cs) : Decimal.readExponent? text = some (w.exponent, []) := by
  rcases h.exponent with ⟨hnone, rfl⟩ | ⟨n, hsome, htext⟩
  · rw [hnone]
    rfl
  · rw [hsome, htext.reads]

theorem Spells.isDigit_head (h : w.Spells text cs) {c : Char} (hc : text.head? = some c) : c.isDigit = false := by
  rcases h.exponent with ⟨-, rfl⟩ | ⟨n, -, htext⟩
  · cases hc
  · obtain ⟨letter, rest, rfl, hletter⟩ := htext.letter
    obtain rfl : letter = c := by simpa using hc
    rcases hletter with rfl | rfl <;> decide

/-- What stands between sign and suffix is read as the numeral of the word, with the sign that is read before it. -/
theorem Spells.readNumeral?_of_sign (h : w.Spells text cs) {front : List Char} {negative : Bool}
    (hsign : Decimal.readSign front = (negative, w.whole ++ (w.fractionText ++ text))) :
    Decimal.readNumeral? front = some { w.numeral with negative := negative } := by
  have hhead : ∀ c, (w.fractionText ++ text).head? = some c → c.isDigit = false := by
    intro c hc
    cases hw : w.fraction with
    | none => exact h.isDigit_head (by simpa [fractionText, hw] using hc)
    | some digits =>
      obtain rfl : '.' = c := by simpa [fractionText, hw] using hc
      rfl
  have hspan := spanDigits_append (Decimal.isDigits_iff.mp h.whole).2 hhead
  have hwhole : w.whole.isEmpty = false := by simp [(Decimal.isDigits_iff.mp h.whole).1]
  simp only [Decimal.readNumeral?, hsign, hspan, hwhole, Bool.false_and]
  cases hw : w.fraction with
  | none =>
    rcases h.exponent with ⟨hexponent, rfl⟩ | ⟨n, hexponent, htext⟩
    · simp [fractionText, hw, hexponent, Decimal.readExponent?, numeral]
    · obtain ⟨c, rest, rfl, rfl | rfl⟩ := htext.letter <;>
        simp [fractionText, hw, hexponent, htext.reads, numeral]
  | some digits =>
    have hdigits := spanDigits_append (Decimal.isDigits_iff.mp (h.fraction digits hw)).2
      fun c hc => h.isDigit_head hc
    simp [fractionText, hw, hdigits, h.readExponent?, numeral]

theorem Spells.readNumeral? (h : w.Spells text cs) :
    Decimal.readNumeral? (w.whole ++ w.fractionText ++ text) = some { w.numeral with negative := false } := by
  rw [List.append_assoc]
  exact h.readNumeral?_of_sign (Decimal.readSign_append h.whole _)

theorem Spells.readNumeral?_sign (h : w.Spells text cs) :
    Decimal.readNumeral? (w.sign ++ (w.whole ++ (w.fractionText ++ text))) = some w.numeral := by
  apply h.readNumeral?_of_sign
  rw [sign]
  cases w.negative with
  | true => rfl
  | false => exact Decimal.readSign_append h.whole _

end NumericWord

theorem unsignedBits_ofDecimal (negative : Bool) (digits : Nat) (exponent : Int) :
    (Double.ofDecimal negative digits exponent).unsignedBits = (Double.ofDecimal false digits exponent).unsignedBits := by
  unfold Double.ofDecimal
  split
  · rw [Double.unsignedBits_withSign _ (Nat.zero_le _), Double.unsignedBits_withSign _ (Nat.zero_le _)]
  split
  · rw [Double.unsignedBits_withSign _ (Nat.le_refl _), Double.unsignedBits_withSign _ (Nat.le_refl _)]
  · rw [Double.ofUnits, Double.ofUnits, Double.unsignedBits_withSign _ (Double.roundUnits_le _ _),
      Double.unsignedBits_withSign _ (Double.roundUnits_le _ _)]

theorem singleValue_congr {x y : Double} (h : x.unsignedBits = y.unsignedBits) :
    Range.singleValue x = Range.singleValue y := by
  simp only [Range.singleValue, Double.isFinite, Double.abs, h]

section

variable {text : String} {w : NumericWord} (hread : NumericWord.read? text.toList = some w)
  (hsuffix : ∀ c ∈ w.suffix, Range.isSuffix c = true)

include hread hsuffix

/-- The sign and the suffix do not count. -/
theorem singleText_eq : ∃ exponent, w.Spells exponent text.toList ∧
    Range.singleText text = if w.exponent.isSome then Range.singleValue w.toDouble
      else Range.singlePlain (w.whole ++ w.fractionText ++ exponent) := by
  obtain ⟨exponent, hspells⟩ := NumericWord.exists_spells hread
  obtain ⟨before, digits, hends, hdigits⟩ := hspells.ends_in_digits
  have htrim := trim_suffix before hdigits hsuffix
  rw [← hends] at htrim
  have hsign : Range.singleValue (.ofNumeral { w.numeral with negative := false }) = Range.singleValue w.toDouble :=
    singleValue_congr (unsignedBits_ofDecimal w.negative _ _).symm
  refine ⟨exponent, hspells, ?_⟩
  rw [Range.singleText, hspells.chars, NumericWord.sign]
  cases w.negative with
  | true =>
    simp only [if_true, List.cons_append, List.nil_append, htrim, hspells.any_letter, hspells.readNumeral?, hsign]
  | false =>
    rw [if_neg Bool.false_ne_true, List.nil_append]
    split
    · rename_i heq
      exact absurd heq (hspells.ne_minus _)
    · simp only [htrim, hspells.any_letter, hspells.readNumeral?, hsign]

/-- Without an exponent the digits are counted as written. -/
theorem singleText_iff_length (hexponent : w.exponent = none) :
    Range.singleText text = true ↔ w.whole.length ≤ 5 ∧ (w.fraction.getD []).length ≤ 5 := by
  obtain ⟨exponent, hspells, heq⟩ := singleText_eq hread hsuffix
  obtain rfl : exponent = [] := by simpa [hexponent] using hspells.exponent
  rw [heq, hexponent, List.append_nil]
  exact hspells.singlePlain_iff

/-- With an exponent the value is checked. -/
theorem singleText_iff_singleValue (hexponent : w.exponent.isSome = true) :
    Range.singleText text = true ↔ Range.singleValue w.toDouble = true := by
  obtain ⟨exponent, -, heq⟩ := singleText_eq hread hsuffix
  rw [heq, if_pos hexponent]

end

/-- A written integer is a single if it has five digits at most. -/
theorem singleText_toString_iff (n : Int) : Range.singleText (toString n) = true ↔ n.natAbs < 100000 := by
  have hread := read?_toString n (.inl rfl)
  rw [List.append_nil] at hread
  have hlength : (Nat.toDigits 10 n.natAbs).length ≤ 5 ↔ n.natAbs < 100000 :=
    Nat.length_toDigits_le_iff (by decide) (by decide)
  rw [singleText_iff_length hread nofun rfl, ← hlength]
  simp

end Filter

end EntityStore
