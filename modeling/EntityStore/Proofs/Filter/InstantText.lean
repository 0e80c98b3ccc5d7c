import EntityStore.Proofs.Filter.Leaf
import EntityStore.Proofs.Filter.LiteralText
import EntityStore.Proofs.Timestamp.Order

/-!
# The text of points in time

A literal for a point in time is read back from its text exactly if the point lies in the years 0 to 9999. A text that
is read as a point in time gives such a literal, unless its offset leads from the first or from the last day of these
years out of them. Main statement: `rereads_iff_and_exists_fields`.
-/
namespace EntityStore

namespace Timestamp

variable {millis m : Int} {f : Fields}

/-! ## Years of four digits -/

/-- The instants of the years 0 to 9999. -/
theorem fourDigitYear_iff :
    0 ≤ (date millis).year ∧ (date millis).year ≤ 9999 ↔ -62167219200000 ≤ millis ∧ millis < 253402300800000 := by
  have hepoch : Calendar.epoch = 719528 := by decide
  have hfirst : Calendar.yearStart 0 = 0 := by decide
  have hlast : Calendar.yearStart 10000 = 3652425 := by decide
  have hafter : (date millis).year ≤ 9999 ↔ ¬ 10000 ≤ (date millis).year := by omega
  rw [hafter, date, Calendar.le_year_dateOf_iff, Calendar.le_year_dateOf_iff, hfirst, hlast, hepoch]
  omega

theorem Offset.Valid.lt_millis {o : Offset} (h : o.Valid) : -86400000 < o.millis ∧ o.millis < 86400000 := by
  obtain ⟨hhours, hminutes⟩ := h
  unfold Offset.millis
  split <;> omega

theorem Ending.Valid.lt_offsetMillis {e : Ending} (h : e.Valid) :
    -86400000 < e.offsetMillis ∧ e.offsetMillis < 86400000 := by
  cases e with
  | minutes | seconds | millis =>
    simp only [Ending.offsetMillis]
    omega
  | offset second milli o => exact h.2.2.lt_millis

theorem Fields.Valid.dayNumber_lt (h : f.Valid) :
    0 ≤ Calendar.dayNumber f.date ∧ Calendar.dayNumber f.date < 3652425 := by
  obtain ⟨hfirst, hlast⟩ := Calendar.yearStart_dayNumber h.date
  have hyear : 0 ≤ f.date.year ∧ f.date.year + 1 ≤ 10000 := by
    have := h.year
    simp only [Fields.date]
    omega
  have hzero : Calendar.yearStart 0 = 0 := by decide
  have hend : Calendar.yearStart 10000 = 3652425 := by decide
  have hstart := Calendar.yearStart_mono hyear.1
  have hstop := Calendar.yearStart_mono hyear.2
  omega

/-- Only an offset leads out of the years that are written with four digits, and only from their first or last day. -/
theorem fourDigitYear_or (h : f.Valid) :
    (0 ≤ (date f.millis).year ∧ (date f.millis).year ≤ 9999) ∨
      f.ending.width = 13 ∧ (f.date = ⟨0, 1, 1⟩ ∨ f.date = ⟨9999, 12, 31⟩) := by
  have hepoch : Calendar.epoch = 719528 := by decide
  obtain ⟨hday, hday'⟩ := h.dayNumber_lt
  obtain ⟨hoffset, hoffset'⟩ := h.ending.lt_offsetMillis
  have htime := h.time_lt
  have hwidth : f.ending.width ≠ 13 → f.ending.offsetMillis = 0 := offsetMillis_eq_zero
  have hnewYear : Calendar.exists? ⟨0, 1, 1⟩ = true := by decide
  have hsilvester : Calendar.exists? ⟨9999, 12, 31⟩ = true := by decide
  have hfirst : Calendar.dayNumber f.date = 0 → f.date = ⟨0, 1, 1⟩ :=
    Calendar.dayNumber_inj h.date (Calendar.exists?_iff.mp hnewYear)
  have hlast : Calendar.dayNumber f.date = 3652424 → f.date = ⟨9999, 12, 31⟩ :=
    Calendar.dayNumber_inj h.date (Calendar.exists?_iff.mp hsilvester)
  rw [fourDigitYear_iff, Fields.millis, hepoch]
  by_cases hbefore : -62167219200000 ≤ f.millis ∧ f.millis < 253402300800000
  · rw [Fields.millis, hepoch] at hbefore
    exact .inl hbefore
  · rw [Fields.millis, hepoch] at hbefore
    refine .inr ⟨?_, ?_⟩
    · by_contra hne
      have hzero := hwidth hne
      omega
    · have hends : Calendar.dayNumber f.date = 0 ∨ Calendar.dayNumber f.date = 3652424 := by omega
      exact hends.imp hfirst hlast

/-! ## Texts of other years -/

theorem exists_digit_text (h : f.Valid) : ∃ d rest, f.text = d :: rest ∧ d.isDigit = true := by
  have hlength : (padded 4 f.year).toList.length = 4 := length_padded (by decide) h.year
  cases hpadded : (padded 4 f.year).toList with
  | nil => rw [hpadded] at hlength; cases hlength
  | cons d rest =>
    have hdigit : d.isDigit = true := by
      have hmem : d ∈ (padded 4 f.year).toList := by rw [hpadded]; exact List.mem_cons_self
      exact isDigit_of_mem_padded hmem
    rw [Fields.text, Fields.head, hpadded, List.cons_append, List.cons_append]
    exact ⟨d, _, rfl, hdigit⟩

theorem letter_mem_text (f : Fields) : 'T' ∈ f.text := by
  simp [Fields.text, Fields.head]

/-- A year that does not have four digits is written with a sign. -/
theorem exists_sign_yearText {year : Int} (h : ¬ (0 ≤ year ∧ year ≤ 9999)) :
    ∃ c rest, (yearText year).toList = c :: rest ∧ c.isDigit = false := by
  have hdigits : (decide (0 ≤ year) && decide (year ≤ 9999)) = false := by simpa using h
  rw [yearText, hdigits, if_neg Bool.false_ne_true, String.toList_append]
  split
  · exact ⟨'-', _, rfl, rfl⟩
  · exact ⟨'+', _, rfl, rfl⟩

theorem text_cases (millis : Int) :
    (∃ rest, (text millis).toList = (yearText (date millis).year).toList ++ rest) ∨ text millis = toString millis := by
  have hdate : Calendar.dateOf (millis / 86400000 + Calendar.epoch) = date millis := rfl
  simp only [text, hdate]
  split
  · simp only [String.toList_append, List.append_assoc]
    exact .inl ⟨_, rfl⟩
  · exact .inr rfl

/-- Only what is written with a year of four digits is read. -/
theorem fourDigitYear_of_read? {suffix : String} (hsuffix : suffix = "" ∨ suffix = "+00:00")
    (h : read? (text millis ++ suffix) = some m) : 0 ≤ (date millis).year ∧ (date millis).year ≤ 9999 := by
  obtain ⟨f, hf, htext, _⟩ := read?_eq_some_iff.mp h
  rw [String.toList_append] at htext
  rcases text_cases millis with ⟨rest, hyear⟩ | hnumber
  · obtain ⟨d, more, hhead, hdigit⟩ := exists_digit_text hf
    by_contra hother
    obtain ⟨c, tail, hsign, hmark⟩ := exists_sign_yearText hother
    rw [hyear, hsign, hhead, List.cons_append, List.cons_append, List.cons.injEq] at htext
    rw [htext.1, hdigit] at hmark
    cases hmark
  · -- A number and the offset have no letter between date and time.
    have hletter := letter_mem_text f
    rw [← htext, hnumber, Decimal.toList_toString_int, List.mem_append, List.mem_append] at hletter
    rcases hletter with (hsign | hdigit) | hoffset
    · split at hsign
      · cases List.mem_singleton.mp hsign
      · cases hsign
    · exact absurd (Decimal.isDigit_of_mem_toDigits hdigit) (by decide)
    · rcases hsuffix with rfl | rfl
      · cases hoffset
      · exact absurd hoffset (by decide)

end Timestamp

namespace Filter

variable {literal : Literal} {k : TokenKind}

/-! ## Literals that are read back -/

/-- The text of the literal is a single token, which is read as that literal. -/
def Literal.Rereads (literal : Literal) : Prop :=
  ∃ ts, tokens literal.text = .ok ts ∧ readLiteral (Text.byteLength literal.text.toList) ts = .ok (literal, [])

theorem rereads_iff_denotes (h : Lexes literal.text.toList [k]) : literal.Rereads ↔ Denotes k literal := by
  obtain ⟨ts, hts, hkinds⟩ := h.tokens
  constructor
  · intro hrereads
    obtain ⟨us, hus, hread⟩ := hrereads
    obtain rfl : ts = us := Except.ok.inj (hts.symm.trans hus)
    obtain ⟨k', position, rfl, hdenotes⟩ := readLiteral_eq_ok_iff.mp hread
    obtain rfl : k' = k := (List.cons.inj hkinds).1
    exact hdenotes
  · intro hdenotes
    obtain ⟨token, rfl, rfl⟩ := List.map_eq_singleton_iff.mp hkinds
    exact ⟨_, hts, readLiteral_eq_ok_iff.mpr ⟨_, _, rfl, hdenotes⟩⟩

theorem read?_of_denotes {tag body : String} {millis : Int}
    (h : Denotes (.tagged tag body) literal)
    (hinstant : literal = .dateTime millis ∨ literal = .dateTimeOffset millis) :
    Timestamp.read? body = some millis := by
  cases h with
  | @dateTime _ read hread | @dateTimeOffset _ read hread =>
    obtain rfl : read = millis := by simpa using hinstant
    exact hread

theorem rereads_dateTime_iff (millis : Int) :
    (Literal.dateTime millis).Rereads ↔ (Literal.dateTime millis).FourDigitYear := by
  have htag : IsWord "datetime".toList := ⟨by simp, List.all_eq_true.mp rfl⟩
  have hlexes := lexes_instant htag (.inl rfl) millis
  rw [← toList_text_dateTime] at hlexes
  rw [rereads_iff_denotes hlexes]
  constructor
  · intro hdenotes
    exact Timestamp.fourDigitYear_of_read? (.inl rfl) (read?_of_denotes hdenotes (.inl rfl))
  · intro hyear
    exact .dateTime (Timestamp.read?_text_append hyear.1 hyear.2 (.inl rfl))

theorem rereads_dateTimeOffset_iff (millis : Int) :
    (Literal.dateTimeOffset millis).Rereads ↔ (Literal.dateTimeOffset millis).FourDigitYear := by
  have htag : IsWord "datetimeoffset".toList := ⟨by simp, List.all_eq_true.mp rfl⟩
  have hlexes := lexes_instant htag (.inr rfl) millis
  rw [← toList_text_dateTimeOffset] at hlexes
  rw [rereads_iff_denotes hlexes]
  constructor
  · intro hdenotes
    exact Timestamp.fourDigitYear_of_read? (.inr rfl) (read?_of_denotes hdenotes (.inr rfl))
  · intro hyear
    exact .dateTimeOffset (Timestamp.read?_text_append hyear.1 hyear.2 (.inr rfl))

/-- The literals for the point in time that a text denotes are read back from their texts exactly if the point lies in
the years 0 to 9999. So it does, unless the text has an offset and the date in it is the first or the last one of these
years. -/
theorem rereads_iff_and_exists_fields {s : String} {millis : Int} (h : Timestamp.read? s = some millis) :
    ((Literal.dateTime millis).Rereads ↔ -62167219200000 ≤ millis ∧ millis < 253402300800000) ∧
    ((Literal.dateTimeOffset millis).Rereads ↔ -62167219200000 ≤ millis ∧ millis < 253402300800000) ∧
    ((-62167219200000 ≤ millis ∧ millis < 253402300800000) ∨ ∃ f : Timestamp.Fields, f.Valid ∧ s.toList = f.text ∧
      (∃ second milli o, f.ending = .offset second milli o) ∧ (f.date = ⟨0, 1, 1⟩ ∨ f.date = ⟨9999, 12, 31⟩)) := by
  have hyears : (Literal.dateTime millis).FourDigitYear ↔ -62167219200000 ≤ millis ∧ millis < 253402300800000 :=
    Timestamp.fourDigitYear_iff
  refine ⟨(rereads_dateTime_iff millis).trans hyears, (rereads_dateTimeOffset_iff millis).trans hyears, ?_⟩
  obtain ⟨f, hf, htext, rfl⟩ := Timestamp.read?_eq_some_iff.mp h
  refine (Timestamp.fourDigitYear_or hf).imp hyears.mp ?_
  intro hends
  obtain ⟨hwidth, hdate⟩ := hends
  have hlength : f.text.length = 29 := by rw [Timestamp.Fields.length_text hf, hwidth]
  exact ⟨f, hf, htext, (Timestamp.length_text_eq_iff hf).mp hlength, hdate⟩

/-- A point in time whose offset leads from the first day of the year 0 to the next one. -/
theorem rereads_iff_and_exists_fields_nextDay :
    Timestamp.read? "0000-01-01T23:59:59.999-23:59" = some (-62167046460001) ∧
      (Literal.dateTime (-62167046460001)).Rereads ∧ (Literal.dateTimeOffset (-62167046460001)).Rereads := by
  have hread : Timestamp.read? "0000-01-01T23:59:59.999-23:59" = some (-62167046460001) := by decide
  obtain ⟨hdateTime, hdateTimeOffset, _⟩ := rereads_iff_and_exists_fields hread
  exact ⟨hread, hdateTime.mpr (by decide), hdateTimeOffset.mpr (by decide)⟩

/-- An offset leads out of the year 9999, and neither literal for the instant is read back: their texts have a year of
five digits. -/
theorem not_rereads_after_lastYear :
    Timestamp.read? "9999-12-31T23:59:59.999-00:01" = some 253402300859999 ∧
      Timestamp.text 253402300859999 = "+10000-01-01T00:00:59.999" ∧
      ¬ (Literal.dateTime 253402300859999).Rereads ∧ ¬ (Literal.dateTimeOffset 253402300859999).Rereads := by
  have hyear : ¬ (Literal.dateTime 253402300859999).FourDigitYear := by
    intro h
    have := Timestamp.fourDigitYear_iff.mp h
    omega
  exact ⟨by decide, by decide, (rereads_dateTime_iff _).not.mpr hyear,
    (rereads_dateTimeOffset_iff _).not.mpr hyear⟩

end Filter

end EntityStore
