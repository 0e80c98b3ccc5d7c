import EntityStore.Failure
import EntityStore.Query.Options
import EntityStore.Proofs.Decimal
import EntityStore.Proofs.Text

/-!
# Page numbers

The texts that `$top` and `$skip` can have: an optional sign and digits, with blanks around. Such a text is an integer
of any size, but only one of 64 bits is compared with the limit; a wider one is refused like a text that is no
integer. Main statement: `readPage_ok_iff_and_code`.
-/
namespace EntityStore

/-- An integer as an option can have it: a sign or none, digits, and blanks around them. -/
structure PageText where
  before : List Char
  sign : Decimal.Sign
  digits : List Char
  after : List Char
  blankBefore : ∀ c ∈ before, Text.isBlank c = true
  isDigits : Decimal.isDigits digits = true
  blankAfter : ∀ c ∈ after, Text.isBlank c = true

namespace PageText

def text (t : PageText) : String := .ofList (t.before ++ (t.sign.chars ++ t.digits) ++ t.after)

/-- The integer that is denoted, of any size. -/
def value (t : PageText) : Int := t.sign.apply (Decimal.ofDigits t.digits)

theorem isBlank_of_mem (t : PageText) : ∀ c ∈ t.sign.chars ++ t.digits, Text.isBlank c = false := by
  intro c hc
  rcases List.mem_append.mp hc with hc | hc
  · cases hsign : t.sign with
    | absent => simp [hsign, Decimal.Sign.chars] at hc
    | plus =>
      obtain rfl : c = '+' := by simpa [hsign, Decimal.Sign.chars] using hc
      decide
    | minus =>
      obtain rfl : c = '-' := by simpa [hsign, Decimal.Sign.chars] using hc
      decide
  · exact Text.isBlank_of_isDigit (Decimal.isDigit_of_mem t.isDigits c hc)

theorem toList_trim_text (t : PageText) : (Text.trim t.text).toList = t.sign.chars ++ t.digits := by
  rw [Text.trim, text, String.toList_ofList, String.toList_ofList,
    Text.trimChars_append t.blankBefore t.blankAfter t.isBlank_of_mem]

end PageText

/-- What is read of a text without the blanks around it are just these integers. -/
theorem readInt?_trim_eq_some_iff {text : String} {n : Int} :
    Decimal.readInt? (Text.trim text).toList = some n ↔ ∃ t : PageText, t.text = text ∧ t.value = n := by
  constructor
  · intro h
    obtain ⟨sign, digits, hdigits, htrim, rfl⟩ := Decimal.readInt?_eq_some_iff.mp h
    obtain ⟨before, after, htext, hbefore, hafter⟩ := Text.exists_trimChars text.toList
    rw [Text.trim, String.toList_ofList] at htrim
    refine ⟨⟨before, sign, digits, after, hbefore, hdigits, hafter⟩, ?_, rfl⟩
    rw [PageText.text, ← htrim, ← htext, String.ofList_toList]
  · rintro ⟨t, rfl, rfl⟩
    exact Decimal.readInt?_eq_some_iff.mpr ⟨t.sign, t.digits, t.isDigits, t.toList_trim_text, rfl⟩

/-- A text denotes one integer. -/
theorem PageText.value_eq_of_text_eq {t t' : PageText} (h : t.text = t'.text) : t.value = t'.value := by
  have hread := readInt?_trim_eq_some_iff.mpr ⟨t, rfl, rfl⟩
  rw [h, readInt?_trim_eq_some_iff.mpr ⟨t', rfl, rfl⟩] at hread
  exact (Option.some.inj hread).symm

namespace QueryOptions

variable {option : PageOption} {max : Nat}

theorem readPage_text (t : PageText) : readPage option max t.text =
    if Decimal.fitsInt64 t.value then
      if 0 ≤ t.value ∧ t.value ≤ max then .ok t.value.toNat else .error (.limitExceeded option t.value max)
    else .error (.unreadable option t.text) := by
  have hread : Decimal.readInt? (Text.trim t.text).toList = some t.value :=
    readInt?_trim_eq_some_iff.mpr ⟨t, rfl, rfl⟩
  unfold readPage Decimal.readInt64?
  rw [hread]
  cases hfits : Decimal.fitsInt64 t.value with
  | true => simp [Option.filter, hfits]
  | false => simp [Option.filter, hfits]

theorem readPage_of_forall_text_ne {text : String} (h : ∀ t : PageText, t.text ≠ text) :
    readPage option max text = .error (.unreadable option text) := by
  have hread : Decimal.readInt? (Text.trim text).toList = none := by
    refine Option.eq_none_iff_forall_ne_some.mpr fun n hn => ?_
    obtain ⟨t, ht, _⟩ := readInt?_trim_eq_some_iff.mp hn
    exact h t ht
  unfold readPage Decimal.readInt64?
  rw [hread]
  rfl

/-- A text is refused with this code. -/
def Refuses (option : PageOption) (max : Nat) (text code : String) : Prop :=
  ∃ e, readPage option max text = .error e ∧ (Failure.query e).code = code

theorem readPage_text_eq_ok_iff (hmax : max ≤ Settings.word32Max) {t : PageText} {n : Nat} :
    readPage option max t.text = .ok n ↔ t.value = n ∧ n ≤ max := by
  have hword : Settings.word32Max = 4294967295 := rfl
  rw [readPage_text]
  simp only [Decimal.fitsInt64, Bool.and_eq_true, decide_eq_true_eq]
  constructor
  · intro h
    split at h
    · split at h
      · cases h
        omega
      · cases h
    · cases h
  · rintro ⟨hvalue, hn⟩
    have hfits : -9223372036854775808 ≤ t.value ∧ t.value ≤ 9223372036854775807 := by omega
    have hwithin : 0 ≤ t.value ∧ t.value ≤ max := by omega
    rw [if_pos hfits, if_pos hwithin, hvalue, Int.toNat_natCast]

theorem refuses_limit_iff {t : PageText} : Refuses option max t.text "QUERY_INVALID_ERROR" ↔
    Decimal.fitsInt64 t.value = true ∧ ¬ (0 ≤ t.value ∧ t.value ≤ max) := by
  unfold Refuses
  rw [readPage_text]
  split
  · rename_i hfits
    split
    · rename_i hwithin
      simp [hwithin]
    · rename_i hbeyond
      exact iff_of_true ⟨_, rfl, rfl⟩ ⟨hfits, hbeyond⟩
  · rename_i hfits
    simp [hfits, Failure.code]

theorem refuses_text_iff {text : String} : Refuses option max text "QUERY_PARSE_ERROR_WITH_PARAM" ↔
    ∀ t : PageText, t.text = text → Decimal.fitsInt64 t.value = false := by
  by_cases h : ∃ t : PageText, t.text = text
  · obtain ⟨t, rfl⟩ := h
    have hwide : (∀ t' : PageText, t'.text = t.text → Decimal.fitsInt64 t'.value = false) ↔
        Decimal.fitsInt64 t.value = false :=
      ⟨fun h => h t rfl, fun h t' htext => by rw [PageText.value_eq_of_text_eq htext, h]⟩
    unfold Refuses
    rw [hwide, readPage_text]
    split
    · rename_i hfits
      split <;> simp [hfits, Failure.code]
    · rename_i hfits
      exact iff_of_true ⟨_, rfl, rfl⟩ (by simpa using hfits)
  · have hnone : ∀ t : PageText, t.text ≠ text := fun t ht => h ⟨t, ht⟩
    exact iff_of_true ⟨_, readPage_of_forall_text_ne hnone, rfl⟩ fun t ht => absurd ht (hnone t)

/-- A page number is accepted exactly from zero to the limit, with its value. Any other integer of 64 bits is refused
for the limit; a wider one is refused like a text that is no integer, and nothing else is. -/
theorem readPage_ok_iff_and_code (option : PageOption) (max : Nat) (hmax : max ≤ Settings.word32Max) :
    (∀ (t : PageText) (n : Nat), readPage option max t.text = .ok n ↔ t.value = n ∧ n ≤ max) ∧
    (∀ t : PageText, Refuses option max t.text "QUERY_INVALID_ERROR" ↔
      Decimal.fitsInt64 t.value = true ∧ ¬ (0 ≤ t.value ∧ t.value ≤ max)) ∧
    ∀ text, Refuses option max text "QUERY_PARSE_ERROR_WITH_PARAM" ↔
      ∀ t : PageText, t.text = text → Decimal.fitsInt64 t.value = false :=
  ⟨fun _ _ => readPage_text_eq_ok_iff hmax, fun _ => refuses_limit_iff, fun _ => refuses_text_iff⟩

/-- A sign, leading zeros and blanks; the least integer of 64 bits; and a text that is no integer. -/
theorem readPage_ok_iff_and_code_signed :
    10000 ≤ Settings.word32Max ∧ readPage .skip 10000 " +0042\t" = .ok 42 ∧
      Refuses .skip 10000 "-9223372036854775808" "QUERY_INVALID_ERROR" ∧
      Refuses .skip 10000 "4 2" "QUERY_PARSE_ERROR_WITH_PARAM" := by
  have hmax : 10000 ≤ Settings.word32Max := by decide
  obtain ⟨haccepts, hrefuses, hunreadable⟩ := readPage_ok_iff_and_code .skip 10000 hmax
  let signed : PageText := ⟨[' '], .plus, ['0', '0', '4', '2'], ['\t'], List.forall_mem_singleton.mpr (by decide),
    by decide, List.forall_mem_singleton.mpr (by decide)⟩
  let least : PageText := ⟨[], .minus, "9223372036854775808".toList, [], nofun, by decide, nofun⟩
  refine ⟨hmax, (haccepts signed 42).mpr ⟨by decide, by decide⟩, (hrefuses least).mpr ⟨by decide, by decide⟩,
    (hunreadable _).mpr fun t ht => ?_⟩
  have hread := readInt?_trim_eq_some_iff.mpr ⟨t, ht, rfl⟩
  have hnone : Decimal.readInt? (Text.trim "4 2").toList = none := by decide
  rw [hnone] at hread
  cases hread

/-- An integer of more than 64 bits lies above every limit and is not refused for it. -/
theorem not_refuses_wide : ¬ ∀ (option : PageOption) (max : Nat) (t : PageText), max ≤ Settings.word32Max →
    ¬ (0 ≤ t.value ∧ t.value ≤ max) → Refuses option max t.text "QUERY_INVALID_ERROR" := by
  intro h
  let wide : PageText := ⟨[], .absent, "9223372036854775808".toList, [], nofun, by decide, nofun⟩
  have hrefuses := h .top 10000 wide (by decide) (by decide)
  have hfits : Decimal.fitsInt64 wide.value = false := by decide
  rw [refuses_limit_iff, hfits] at hrefuses
  cases hrefuses.1

end QueryOptions

end EntityStore
