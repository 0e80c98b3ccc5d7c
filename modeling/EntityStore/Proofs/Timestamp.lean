import EntityStore.Proofs.Calendar.Order
import EntityStore.Proofs.Decimal
import EntityStore.Timestamp

/-!
# The forms of instants

A text that is read as an instant has one of four forms, which differ in what stands after the minutes, and its fields
are those of a date and of a time of day. An instant of the years 0 to 9999 is read back from its text, with and without
an offset of zero. Main statements: `read?_eq_some_iff` and `read?_text_append`.
-/
namespace EntityStore.Timestamp

variable {cs rest : List Char} {n : Nat}

/-! ## Fields of fixed width -/

theorem toList_padded (width n : Nat) :
    (padded width n).toList =
      List.replicate (width - (Nat.toDigits 10 n).length) '0' ++ Nat.toDigits 10 n := by
  simp [padded]

theorem length_padded {width n : Nat} (hwidth : 0 < width) (h : n < 10 ^ width) :
    (padded width n).toList.length = width := by
  have hle := (Nat.length_toDigits_le_iff (by decide) hwidth).mpr h
  rw [toList_padded, List.length_append, List.length_replicate]
  omega

theorem isDigit_of_mem_padded {width n : Nat} {c : Char} (h : c ∈ (padded width n).toList) :
    c.isDigit = true := by
  rw [toList_padded, List.mem_append] at h
  rcases h with h | h
  · rw [(List.mem_replicate.mp h).2]
    rfl
  · exact Nat.isDigit_of_mem_toDigits (by decide) (by decide) h

theorem ofDigits_padded (width n : Nat) : Decimal.ofDigits (padded width n).toList = n := by
  rw [toList_padded, Decimal.ofDigits, Nat.ofDigitChars_append, Nat.ofDigitChars_replicate_zero, Nat.mul_zero]
  exact Nat.ofDigitChars_ten_toDigits

theorem padded_ofDigits (hne : 0 < cs.length) (h : ∀ c ∈ cs, c.isDigit = true) :
    (padded cs.length (Decimal.ofDigits cs)).toList = cs :=
  Decimal.ofDigits_inj (fun _ hc => isDigit_of_mem_padded hc) h (length_padded hne (Decimal.ofDigits_lt h))
    (ofDigits_padded _ _)

/-- What is read as a number of so many digits. -/
theorem readDigits?_eq_some_iff {width : Nat} (hwidth : 0 < width) :
    readDigits? width cs = some (n, rest) ↔ n < 10 ^ width ∧ cs = (padded width n).toList ++ rest := by
  constructor
  · intro h
    simp only [readDigits?, Option.ite_none_right_eq_some, Bool.and_eq_true, decide_eq_true_eq, List.all_eq_true,
      Option.some.injEq, Prod.mk.injEq] at h
    obtain ⟨⟨hlength, hdigits⟩, rfl, rfl⟩ := h
    have hlt := Decimal.ofDigits_lt hdigits
    have hpadded := padded_ofDigits (by omega) hdigits
    rw [hlength] at hlt hpadded
    exact ⟨hlt, by rw [hpadded, List.take_append_drop]⟩
  · rintro ⟨hlt, rfl⟩
    have hlength := length_padded hwidth hlt
    have hdigits : (padded width n).toList.all Char.isDigit = true :=
      List.all_eq_true.mpr fun c hc => isDigit_of_mem_padded hc
    simp only [readDigits?, List.take_left' hlength, List.drop_left' hlength, hlength, hdigits, ofDigits_padded]
    simp

theorem readDigits?_padded {width : Nat} (hwidth : 0 < width) (h : n < 10 ^ width) (rest : List Char) :
    readDigits? width ((padded width n).toList ++ rest) = some (n, rest) :=
  (readDigits?_eq_some_iff hwidth).mpr ⟨h, rfl⟩

theorem readMark?_eq_some_iff {c : Char} : readMark? c cs = some rest ↔ cs = c :: rest := by
  cases cs with
  | nil => simp [readMark?]
  | cons d cs => simp [readMark?]

theorem readMark?_cons (c : Char) (rest : List Char) : readMark? c (c :: rest) = some rest :=
  readMark?_eq_some_iff.mpr rfl

/-! ## Forms -/

/-- How far the local time of a text is ahead of or behind the instant it denotes. -/
structure Offset where
  behind : Bool
  hours : Nat
  minutes : Nat

namespace Offset

def text (o : Offset) : List Char :=
  (if o.behind then '-' else '+') :: ((padded 2 o.hours).toList ++ ':' :: (padded 2 o.minutes).toList)

def millis (o : Offset) : Int :=
  if o.behind then -((o.hours * 60 + o.minutes) * 60000 : Nat) else ((o.hours * 60 + o.minutes) * 60000 : Nat)

def Valid (o : Offset) : Prop := o.hours ≤ 23 ∧ o.minutes ≤ 59

end Offset

/-- What stands after the minutes. -/
inductive Ending where
  | minutes
  | seconds (second : Nat)
  | millis (second milli : Nat)
  | offset (second milli : Nat) (o : Offset)

namespace Ending

def second : Ending → Nat
  | minutes => 0
  | seconds second | millis second _ | offset second _ _ => second

def milli : Ending → Nat
  | minutes | seconds _ => 0
  | millis _ milli | offset _ milli _ => milli

def offsetMillis : Ending → Int
  | minutes | seconds _ | millis _ _ => 0
  | offset _ _ o => o.millis

def text : Ending → List Char
  | minutes => []
  | seconds second => ':' :: (padded 2 second).toList
  | millis second milli => ':' :: ((padded 2 second).toList ++ '.' :: (padded 3 milli).toList)
  | offset second milli o => ':' :: ((padded 2 second).toList ++ '.' :: ((padded 3 milli).toList ++ o.text))

def Valid : Ending → Prop
  | minutes => True
  | seconds second => second < 60
  | millis second milli => second < 60 ∧ milli < 1000
  | offset second milli o => second < 60 ∧ milli < 1000 ∧ o.Valid

theorem Valid.second_lt {e : Ending} (h : e.Valid) : e.second < 60 := by
  cases e with
  | minutes => exact Nat.zero_lt_succ _
  | seconds second => exact h
  | millis second milli | offset second milli o => exact h.1

theorem Valid.milli_lt {e : Ending} (h : e.Valid) : e.milli < 1000 := by
  cases e with
  | minutes | seconds second => exact Nat.zero_lt_succ _
  | millis second milli => exact h.2
  | offset second milli o => exact h.2.1

end Ending

/-- The fields of a text. -/
structure Fields where
  year : Nat
  month : Nat
  day : Nat
  hour : Nat
  minute : Nat
  ending : Ending

namespace Fields

def date (f : Fields) : Date := ⟨f.year, f.month, f.day⟩

/-- The text up to the minutes. -/
def head (f : Fields) : List Char :=
  (padded 4 f.year).toList ++ '-' :: ((padded 2 f.month).toList ++ '-' :: ((padded 2 f.day).toList ++
    'T' :: ((padded 2 f.hour).toList ++ ':' :: (padded 2 f.minute).toList)))

def text (f : Fields) : List Char := f.head ++ f.ending.text

/-- The milliseconds since midnight. -/
def time (f : Fields) : Nat := ((f.hour * 60 + f.minute) * 60 + f.ending.second) * 1000 + f.ending.milli

def millis (f : Fields) : Int :=
  (Calendar.dayNumber f.date - Calendar.epoch) * 86400000 + f.time - f.ending.offsetMillis

/-- The fields are those of a date of the calendar and of a time of day. -/
structure Valid (f : Fields) : Prop where
  year : f.year < 10000
  date : Calendar.IsDate f.date
  hour : f.hour < 24
  minute : f.minute < 60
  ending : f.ending.Valid

namespace Valid

variable {f : Fields}

theorem month_lt (h : f.Valid) : f.month < 100 := by
  have hle : f.month ≤ 12 := h.date.1.2
  omega

theorem day_lt (h : f.Valid) : f.day < 100 := by
  have hle : f.day ≤ Calendar.daysIn (Calendar.isLeap f.date.year) f.date.month := h.date.2.2
  have hlast := Calendar.daysIn_le (Calendar.isLeap f.date.year) f.date.month
  omega

theorem hour_lt (h : f.Valid) : f.hour < 100 := h.hour.trans (by decide)

theorem minute_lt (h : f.Valid) : f.minute < 100 := h.minute.trans (by decide)

end Valid

end Fields

/-! ## Reading -/

theorem readOffset?_text {o : Offset} (h : o.Valid) : readOffset? o.text = some o.millis := by
  obtain ⟨behind, hours, minutes⟩ := o
  obtain ⟨hhoursLe, hminutesLe⟩ := h
  have htwo : 0 < 2 := by decide
  dsimp only at hhoursLe hminutesLe
  have hhours : ∀ rest, readDigits? 2 ((padded 2 hours).toList ++ rest) = some (hours, rest) :=
    readDigits?_padded htwo (by omega)
  have hminutes : readDigits? 2 (padded 2 minutes).toList = some (minutes, []) :=
    (readDigits?_eq_some_iff htwo).mpr ⟨by omega, (List.append_nil _).symm⟩
  have hseconds : ((hours * 3600 + minutes * 60 : Nat) : Int) * 1000 = ((hours * 60 + minutes) * 60000 : Nat) := by
    omega
  cases behind with
  | false | true =>
    simp [readOffset?, Offset.text, Offset.millis, hhours, hminutes, readMark?_cons, hhoursLe, hminutesLe, ← hseconds]

theorem exists_offset {millis : Int} (h : readOffset? cs = some millis) :
    ∃ o : Offset, o.Valid ∧ cs = o.text ∧ o.millis = millis := by
  have htwo : 0 < 2 := by decide
  cases cs with
  | nil => cases h
  | cons sign cs =>
    have hsign : ∃ behind : Bool, sign = if behind then '-' else '+' := by
      by_cases hplus : sign = '+'
      · exact ⟨false, hplus⟩
      by_cases hminus : sign = '-'
      · exact ⟨true, hminus⟩
      simp [readOffset?, hplus, hminus] at h
    obtain ⟨behind, rfl⟩ := hsign
    have hparts : ∃ hours minutes, (hours ≤ 23 ∧ minutes ≤ 59) ∧
        cs = (padded 2 hours).toList ++ ':' :: (padded 2 minutes).toList ∧
        Offset.millis ⟨behind, hours, minutes⟩ = millis := by
      cases behind with
      | false | true =>
        obtain ⟨⟨hours, rest₁⟩, hhours, h⟩ := Option.bind_eq_some_iff.mp h
        obtain ⟨rest₂, hmark, h⟩ := Option.bind_eq_some_iff.mp h
        obtain ⟨⟨minutes, rest₃⟩, hminutes, h⟩ := Option.bind_eq_some_iff.mp h
        obtain ⟨hends, heq⟩ := Option.ite_none_right_eq_some.mp h
        simp only [Bool.and_eq_true, List.isEmpty_iff, decide_eq_true_eq] at hends
        obtain ⟨⟨hrest, hhoursLe⟩, hminutesLe⟩ := hends
        obtain ⟨_, hhours⟩ := (readDigits?_eq_some_iff htwo).mp hhours
        obtain ⟨_, hminutes⟩ := (readDigits?_eq_some_iff htwo).mp hminutes
        rw [readMark?_eq_some_iff] at hmark
        refine ⟨hours, minutes, ⟨hhoursLe, hminutesLe⟩, ?_, ?_⟩
        · rw [hhours, hmark, hminutes, hrest, List.append_nil]
        · rw [← Option.some.inj heq]
          simp only [Offset.millis, if_true, Bool.false_eq_true, if_false]
          omega
    obtain ⟨hours, minutes, hvalid, htext, hmillis⟩ := hparts
    refine ⟨⟨behind, hours, minutes⟩, hvalid, ?_, hmillis⟩
    rw [htext]
    rfl

theorem readTail?_text {e : Ending} (h : e.Valid) :
    readTail? e.text = some (e.second, e.milli, e.offsetMillis) := by
  have hreadSecond : ∀ second rest, second < 60 →
      readDigits? 2 ((padded 2 second).toList ++ rest) = some (second, rest) :=
    fun second rest hsecond => readDigits?_padded (by decide) (by omega) rest
  have hreadMilli : ∀ milli rest, milli < 1000 →
      readDigits? 3 ((padded 3 milli).toList ++ rest) = some (milli, rest) :=
    fun milli rest hmilli => readDigits?_padded (by decide) (by omega) rest
  cases e with
  | minutes => rfl
  | seconds second =>
    have hread := hreadSecond second [] h
    rw [List.append_nil] at hread
    simp [readTail?, Ending.text, readMark?_cons, hread, Ending.second, Ending.milli, Ending.offsetMillis]
  | millis second milli =>
    obtain ⟨hsecond, hmilli⟩ := h
    have hread := hreadMilli milli [] hmilli
    rw [List.append_nil] at hread
    simp [readTail?, Ending.text, readMark?_cons, hreadSecond second _ hsecond, hread, Ending.second, Ending.milli,
      Ending.offsetMillis]
  | offset second milli o =>
    obtain ⟨hsecond, hmilli, hoffset⟩ := h
    have hne : o.text ≠ [] := List.cons_ne_nil _ _
    simp [readTail?, Ending.text, readMark?_cons, hreadSecond second _ hsecond, hreadMilli milli _ hmilli, hne,
      readOffset?_text hoffset, Ending.second, Ending.milli, Ending.offsetMillis]

theorem exists_ending {second milli : Nat} {offset : Int} (h : readTail? cs = some (second, milli, offset))
    (hsecond : second < 60) :
    ∃ e : Ending, e.Valid ∧ cs = e.text ∧ e.second = second ∧ e.milli = milli ∧ e.offsetMillis = offset := by
  have htwo : 0 < 2 := by decide
  have hthree : 0 < 3 := by decide
  cases cs with
  | nil =>
    cases h
    exact ⟨.minutes, trivial, rfl, rfl, rfl, rfl⟩
  | cons c cs =>
    obtain ⟨rest₁, hcolon, h⟩ := Option.bind_eq_some_iff.mp h
    obtain ⟨⟨value, rest₂⟩, hvalue, h⟩ := Option.bind_eq_some_iff.mp h
    obtain ⟨_, hvalue⟩ := (readDigits?_eq_some_iff htwo).mp hvalue
    rw [readMark?_eq_some_iff] at hcolon
    rw [hcolon, hvalue]
    dsimp only at h
    split_ifs at h with hend
    · cases h
      rw [List.isEmpty_iff.mp hend, List.append_nil]
      exact ⟨.seconds second, hsecond, rfl, rfl, rfl, rfl⟩
    obtain ⟨rest₃, hpoint, h⟩ := Option.bind_eq_some_iff.mp h
    obtain ⟨⟨fraction, rest₄⟩, hfraction, h⟩ := Option.bind_eq_some_iff.mp h
    obtain ⟨hfractionLt, hfraction⟩ := (readDigits?_eq_some_iff hthree).mp hfraction
    rw [readMark?_eq_some_iff] at hpoint
    rw [hpoint, hfraction]
    dsimp only at h
    split_ifs at h with hend'
    · cases h
      rw [List.isEmpty_iff.mp hend', List.append_nil]
      exact ⟨.millis second milli, ⟨hsecond, hfractionLt⟩, rfl, rfl, rfl, rfl⟩
    · obtain ⟨millis, hoffset, heq⟩ := Option.bind_eq_some_iff.mp h
      obtain ⟨o, hvalid, htext, hmillis⟩ := exists_offset hoffset
      cases heq
      rw [htext]
      exact ⟨.offset second milli o, ⟨hsecond, hfractionLt, hvalid⟩, rfl, rfl, rfl, hmillis⟩

theorem timeOfDay?_eq_some_iff {hour minute second milli : Nat} {time : Int} :
    timeOfDay? hour minute second milli = some time ↔
      (hour < 24 ∧ minute < 60 ∧ second < 60) ∧ (((hour * 60 + minute) * 60 + second) * 1000 + milli : Nat) = time := by
  simp [timeOfDay?, and_assoc]

theorem exists_fields {s : String} {millis : Int} (h : read? s = some millis) :
    ∃ f : Fields, f.Valid ∧ s.toList = f.text ∧ f.millis = millis := by
  have htwo : 0 < 2 := by decide
  have hfour : 0 < 4 := by decide
  unfold read? at h
  obtain ⟨⟨year, rest₁⟩, hyear, h⟩ := Option.bind_eq_some_iff.mp h
  obtain ⟨rest₂, hmark₁, h⟩ := Option.bind_eq_some_iff.mp h
  obtain ⟨⟨month, rest₃⟩, hmonth, h⟩ := Option.bind_eq_some_iff.mp h
  obtain ⟨rest₄, hmark₂, h⟩ := Option.bind_eq_some_iff.mp h
  obtain ⟨⟨day, rest₅⟩, hday, h⟩ := Option.bind_eq_some_iff.mp h
  obtain ⟨rest₆, hmark₃, h⟩ := Option.bind_eq_some_iff.mp h
  obtain ⟨⟨hour, rest₇⟩, hhour, h⟩ := Option.bind_eq_some_iff.mp h
  obtain ⟨rest₈, hmark₄, h⟩ := Option.bind_eq_some_iff.mp h
  obtain ⟨⟨minute, rest₉⟩, hminute, h⟩ := Option.bind_eq_some_iff.mp h
  obtain ⟨⟨second, milli, offset⟩, htail, h⟩ := Option.bind_eq_some_iff.mp h
  obtain ⟨hdate, h⟩ := Option.ite_none_right_eq_some.mp h
  obtain ⟨time, htime, heq⟩ := Option.bind_eq_some_iff.mp h
  obtain ⟨⟨hhourLt, hminuteLt, hsecondLt⟩, htime⟩ := timeOfDay?_eq_some_iff.mp htime
  obtain ⟨hyearLt, hyear⟩ := (readDigits?_eq_some_iff hfour).mp hyear
  obtain ⟨_, hmonth⟩ := (readDigits?_eq_some_iff htwo).mp hmonth
  obtain ⟨_, hday⟩ := (readDigits?_eq_some_iff htwo).mp hday
  obtain ⟨_, hhour⟩ := (readDigits?_eq_some_iff htwo).mp hhour
  obtain ⟨_, hminute⟩ := (readDigits?_eq_some_iff htwo).mp hminute
  obtain ⟨e, he, hending, hsecond, hmilli, hoffset⟩ := exists_ending htail hsecondLt
  rw [readMark?_eq_some_iff] at hmark₁ hmark₂ hmark₃ hmark₄
  refine ⟨⟨year, month, day, hour, minute, e⟩,
    ⟨hyearLt, Calendar.exists?_iff.mp hdate, hhourLt, hminuteLt, he⟩, ?_, ?_⟩
  · rw [hyear, hmark₁, hmonth, hmark₂, hday, hmark₃, hhour, hmark₄, hminute, hending]
    simp only [Fields.text, Fields.head, List.append_assoc, List.cons_append]
  · rw [← Option.some.inj heq, ← htime, ← hsecond, ← hmilli, ← hoffset]
    rfl

theorem read?_of_text {f : Fields} (hf : f.Valid) {s : String} (h : s.toList = f.text) : read? s = some f.millis := by
  have htwo : 0 < 2 := by decide
  have hyear : ∀ rest, readDigits? 4 ((padded 4 f.year).toList ++ rest) = some (f.year, rest) :=
    readDigits?_padded (by decide) hf.year
  have hmonth : ∀ rest, readDigits? 2 ((padded 2 f.month).toList ++ rest) = some (f.month, rest) :=
    readDigits?_padded htwo hf.month_lt
  have hday : ∀ rest, readDigits? 2 ((padded 2 f.day).toList ++ rest) = some (f.day, rest) :=
    readDigits?_padded htwo hf.day_lt
  have hhour : ∀ rest, readDigits? 2 ((padded 2 f.hour).toList ++ rest) = some (f.hour, rest) :=
    readDigits?_padded htwo hf.hour_lt
  have hminute : ∀ rest, readDigits? 2 ((padded 2 f.minute).toList ++ rest) = some (f.minute, rest) :=
    readDigits?_padded htwo hf.minute_lt
  have hdate : Calendar.exists? ⟨f.year, f.month, f.day⟩ = true := Calendar.exists?_iff.mpr hf.date
  have htime : timeOfDay? f.hour f.minute f.ending.second f.ending.milli = some (f.time : Int) :=
    timeOfDay?_eq_some_iff.mpr ⟨⟨hf.hour, hf.minute, hf.ending.second_lt⟩, rfl⟩
  simp only [read?, h, Fields.text, Fields.head, List.append_assoc, List.cons_append, hyear, readMark?_cons, hmonth,
    hday, hhour, hminute, readTail?_text hf.ending, hdate, htime, Option.bind_eq_bind, Option.bind_some, if_true,
    Option.pure_def]
  rfl

/-- A text is read exactly if it has one of the four forms and its fields are valid. -/
theorem read?_eq_some_iff {s : String} {millis : Int} :
    read? s = some millis ↔ ∃ f : Fields, f.Valid ∧ s.toList = f.text ∧ f.millis = millis := by
  constructor
  · exact exists_fields
  · intro h
    obtain ⟨f, hf, htext, rfl⟩ := h
    exact read?_of_text hf htext

/-! ## Written instants -/

/-- The date that an instant lies in. -/
def date (millis : Int) : Date := Calendar.dateOf (millis / 86400000 + Calendar.epoch)

/-- The milliseconds of an instant since midnight. -/
def sinceMidnight (millis : Int) : Nat := (millis % 86400000).toNat

theorem sinceMidnight_lt (millis : Int) : sinceMidnight millis < 86400000 := by
  unfold sinceMidnight
  omega

theorem date_time_eq (millis : Int) :
    (Calendar.dayNumber (date millis) - Calendar.epoch) * 86400000 + sinceMidnight millis = millis := by
  rw [date, Calendar.dayNumber_dateOf, sinceMidnight]
  omega

/-- The fields of the text of an instant, with the ending that it is written with. -/
def writtenFields (millis : Int) (ending : Ending) : Fields where
  year := (date millis).year.toNat
  month := (date millis).month
  day := (date millis).day
  hour := sinceMidnight millis / 60000 / 60
  minute := sinceMidnight millis / 60000 % 60
  ending := ending

/-- The ending of the text of an instant. -/
def writtenEnding (millis : Int) : Ending := .millis (sinceMidnight millis / 1000 % 60) (sinceMidnight millis % 1000)

/-- The ending of the text of an instant before an offset of zero. -/
def writtenOffset (millis : Int) : Ending :=
  .offset (sinceMidnight millis / 1000 % 60) (sinceMidnight millis % 1000) ⟨false, 0, 0⟩

variable {millis : Int}

theorem toList_text (h : 0 ≤ (date millis).year) (h' : (date millis).year ≤ 9999) :
    (text millis).toList = (writtenFields millis (writtenEnding millis)).text := by
  have hdate : Calendar.dateOf (millis / 86400000 + Calendar.epoch) = date millis := rfl
  have htime : (millis % 86400000).toNat = sinceMidnight millis := rfl
  have hwritten : -262143 ≤ (date millis).year ∧ (date millis).year ≤ 262142 := by omega
  have hdash : "-".toList = ['-'] := rfl
  have hletter : "T".toList = ['T'] := rfl
  have hcolon : ":".toList = [':'] := rfl
  have hpoint : ".".toList = ['.'] := rfl
  simp only [text, hdate, htime, yearText, yearMin, yearMax, hwritten, h, h', decide_true, Bool.and_self, if_true]
  simp only [String.toList_append, hdash, hletter, hcolon, hpoint, List.append_assoc, List.cons_append,
    List.nil_append, Fields.text, Fields.head, Ending.text, writtenFields, writtenEnding]

theorem read?_of_written (h : 0 ≤ (date millis).year) (h' : (date millis).year ≤ 9999) {e : Ending} (he : e.Valid)
    (hsecond : e.second = sinceMidnight millis / 1000 % 60) (hmilli : e.milli = sinceMidnight millis % 1000)
    (hoffset : e.offsetMillis = 0) {s : String} (htext : s.toList = (writtenFields millis e).text) :
    read? s = some millis := by
  have hlt := sinceMidnight_lt millis
  have hdate : (writtenFields millis e).date = date millis := by
    rw [Fields.date, writtenFields, Int.toNat_of_nonneg h]
  have hyear : (writtenFields millis e).year < 10000 := by
    simp only [writtenFields]
    omega
  have hhour : (writtenFields millis e).hour < 24 := by
    simp only [writtenFields]
    omega
  have hminute : (writtenFields millis e).minute < 60 := by
    simp only [writtenFields]
    omega
  have htime : (writtenFields millis e).time = sinceMidnight millis := by
    simp only [Fields.time, writtenFields, hsecond, hmilli]
    omega
  refine read?_eq_some_iff.mpr ⟨_, ⟨hyear, ?_, hhour, hminute, he⟩, htext, ?_⟩
  · rw [hdate]
    exact Calendar.isDate_dateOf _
  · have hending : (writtenFields millis e).ending = e := rfl
    rw [Fields.millis, hdate, htime, hending, hoffset, Int.sub_zero, date_time_eq]

theorem read?_text_append (h : 0 ≤ (date millis).year) (h' : (date millis).year ≤ 9999) {suffix : String}
    (hsuffix : suffix = "" ∨ suffix = "+00:00") : read? (text millis ++ suffix) = some millis := by
  have hsecond : sinceMidnight millis / 1000 % 60 < 60 := Nat.mod_lt _ (by decide)
  have hmilli : sinceMidnight millis % 1000 < 1000 := Nat.mod_lt _ (by decide)
  rcases hsuffix with rfl | rfl
  · have he : (writtenEnding millis).Valid := ⟨hsecond, hmilli⟩
    refine read?_of_written h h' he rfl rfl rfl ?_
    rw [String.append_empty, toList_text h h']
  · have he : (writtenOffset millis).Valid := ⟨hsecond, hmilli, by decide, by decide⟩
    have hzero : "+00:00".toList = Offset.text ⟨false, 0, 0⟩ := rfl
    refine read?_of_written h h' he rfl rfl rfl ?_
    rw [String.toList_append, toList_text h h', hzero]
    simp [Fields.text, Fields.head, Ending.text, writtenFields, writtenEnding, writtenOffset]

end EntityStore.Timestamp
