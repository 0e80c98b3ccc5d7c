import EntityStore.Proofs.Filter.Comparison

/-!
# Integers of any length

Digits after an optional minus denote an integer, whatever their number. In a comparison with it the range of the
property decides: an integer of more than 64 bits is read as a double, but is out of range as a smaller one is. Main
statement: `read_compare_integer`.
-/
namespace EntityStore.Filter

/-- An optional minus and digits, which may begin with zeros. -/
structure IntegerText where
  negative : Bool
  digits : List Char
  isDigits : Decimal.isDigits digits = true

namespace IntegerText

def text (t : IntegerText) : String := .ofList ((if t.negative then ['-'] else []) ++ t.digits)

/-- The integer that is denoted. -/
def value (t : IntegerText) : Int :=
  if t.negative then -(Decimal.ofDigits t.digits : Int) else Decimal.ofDigits t.digits

/-- The text and a suffix as a word in its parts. -/
def word (t : IntegerText) (suffix : List Char) : NumericWord := ⟨t.negative, t.digits, none, none, suffix⟩

/-- The operand that the text and a suffix are read as. -/
def literal (t : IntegerText) (suffix : String) : Literal :=
  if Decimal.fitsInt64 t.value then if suffix = "" then .integer t.value else .long t.value
  else .double (t.word []).toDouble t.text

/-- No suffix, or the letter of a long before which the integer fits 64 bits. -/
def Allows (t : IntegerText) (suffix : String) : Prop :=
  suffix = "" ∨ (suffix = "L" ∨ suffix = "l") ∧ Decimal.fitsInt64 t.value = true

variable {t : IntegerText} {suffix : String}

@[simp] theorem isIntegral_word (t : IntegerText) (letters : List Char) : (t.word letters).isIntegral = true := rfl

@[simp] theorem toInt_word (t : IntegerText) (letters : List Char) : (t.word letters).toInt = t.value := rfl

@[simp] theorem suffix_word (t : IntegerText) (letters : List Char) : (t.word letters).suffix = letters := rfl

theorem toList_text (t : IntegerText) : t.text.toList = (if t.negative then ['-'] else []) ++ t.digits :=
  String.toList_ofList

theorem read?_append (h : t.Allows suffix) :
    NumericWord.read? (t.text ++ suffix).toList = some (t.word suffix.toList) := by
  have hletters : suffix.toList = [] ∨ suffix.toList = ['L'] ∨ suffix.toList = ['l'] := by
    rcases h with rfl | ⟨rfl | rfl, -⟩
    · exact .inl rfl
    · exact .inr (.inl rfl)
    · exact .inr (.inr rfl)
  rw [String.toList_append, toList_text, List.append_assoc]
  exact read?_digits t.negative t.isDigits hletters

theorem readNumber?_append (h : t.Allows suffix) : readNumber? (t.text ++ suffix) = some (.ok (t.literal suffix)) := by
  rw [readNumber?, read?_append h]
  rcases h with rfl | ⟨rfl | rfl, hfits⟩
  · simp only [suffix_word, String.toList_empty, isIntegral_word, toInt_word, Bool.true_and, literal, if_true,
      String.append_empty]
    split <;> rfl
  · simp [literal, hfits]
  · simp [literal, hfits]

theorem isIntegerText_text (t : IntegerText) : isIntegerText t.text = true := by
  rw [isIntegerText, toList_text]
  cases t.negative with
  | true => exact t.isDigits
  | false =>
    rw [if_neg Bool.false_ne_true, List.nil_append]
    split
    · rename_i digits heq
      exact absurd heq (by simpa using digits_append_ne t.isDigits (by decide) [] digits)
    · exact t.isDigits

end IntegerText

/-- The types whose values are integers, with the range and the operand of each. -/
inductive IntegerType : EdmType → (Int → Bool) → (Int → Operand) → Prop
  | int32 : IntegerType .int32 Range.int32 .integer
  | dateTime : IntegerType .dateTime Range.dateTime .dateTime

variable {type : EdmType} {inRange : Int → Bool} {operand : Int → Operand}

theorem IntegerType.fitsInt64 (h : IntegerType type inRange operand) {n : Int} (hn : inRange n = true) :
    Decimal.fitsInt64 n = true := by
  simp only [Decimal.fitsInt64, Bool.and_eq_true, decide_eq_true_eq]
  cases h with
  | int32 =>
    rw [int32_iff] at hn
    omega
  | dateTime =>
    rw [dateTime_iff, FitsDateTime] at hn
    omega

/-- The range decides, whatever the integer is read as. -/
theorem coerce_integer (h : IntegerType type inRange operand) {p : Property} (hp : p.type = type) (op : Comparator)
    (t : IntegerText) (suffix : String) :
    coerce p.use op.word (t.literal suffix) =
      if inRange t.value then .ok (operand t.value) else .error (.outOfRange p.name type (t.literal suffix).text) := by
  have heffective : p.use.effective = type := hp
  by_cases hfits : Decimal.fitsInt64 t.value = true
  · by_cases hsuffix : suffix = ""
    · rw [IntegerText.literal, if_pos hfits, if_pos hsuffix]
      cases h <;> simp only [coerce, heffective] <;> rfl
    · rw [IntegerText.literal, if_pos hfits, if_neg hsuffix]
      cases h <;> simp only [coerce, heffective] <;> rfl
  · have houtside : inRange t.value = false := by
      rw [← Bool.not_eq_true]
      exact fun hin => hfits (h.fitsInt64 hin)
    rw [IntegerText.literal, if_neg hfits, houtside]
    cases h <;> simp only [coerce, heffective, t.isIntegerText_text] <;> rfl

variable {schema : Schema} {entityType name : String} {p : Property} {t : IntegerText} {suffix : String}

theorem read_compare_of_integerType (hsubject : Subject schema entityType name p)
    (htype : IntegerType p.type inRange operand) (op : Comparator) (hsuffix : t.Allows suffix) :
    TypedFilter.read schema entityType (name ++ " " ++ op.word ++ " " ++ (t.text ++ suffix)) =
      if inRange t.value then .ok (.compare p.use op (operand t.value))
      else .error (.typing (.outOfRange p.name p.type (t.literal suffix).text)) := by
  have hdeclared : p.type ≠ .undeclared := by
    intro heq
    rw [heq] at htype
    cases htype
  have hordered : p.type.isOrdered = true := by
    generalize p.type = type at htype
    cases htype <;> rfl
  rw [read_compare_number hsubject hdeclared hordered op (IntegerText.readNumber?_append hsuffix),
    coerce_integer htype rfl]
  split <;> rfl

/-- A comparison with an integer of any length is accepted with that integer if it lies in the range of the property,
and is out of range otherwise; with the suffix of a long it is the same for the integers of 64 bits. -/
theorem read_compare_integer (hsubject : Subject schema entityType name p) (op : Comparator) (t : IntegerText)
    (hsuffix : suffix = "" ∨ (suffix = "L" ∨ suffix = "l") ∧ Decimal.fitsInt64 t.value = true) :
    (p.type = .int32 →
      TypedFilter.read schema entityType (name ++ " " ++ op.word ++ " " ++ (t.text ++ suffix)) =
        if -2147483648 ≤ t.value ∧ t.value ≤ 2147483647 then .ok (.compare p.use op (.integer t.value))
        else .error (.typing (.outOfRange p.name .int32 (t.literal suffix).text))) ∧
    (p.type = .dateTime →
      TypedFilter.read schema entityType (name ++ " " ++ op.word ++ " " ++ (t.text ++ suffix)) =
        if -6847804800000 ≤ t.value ∧ t.value ≤ 253402300799999 then .ok (.compare p.use op (.dateTime t.value))
        else .error (.typing (.outOfRange p.name .dateTime (t.literal suffix).text))) := by
  constructor
  · intro htype
    have hinteger : IntegerType p.type Range.int32 .integer := htype ▸ .int32
    rw [read_compare_of_integerType hsubject hinteger op hsuffix, htype]
    simp only [int32_iff]
  · intro htype
    have hinteger : IntegerType p.type Range.dateTime .dateTime := htype ▸ .dateTime
    rw [read_compare_of_integerType hsubject hinteger op hsuffix, htype]
    simp only [dateTime_iff, FitsDateTime]

/-- The least integer of 32 bits after many zeros, an integer of more than 64 bits, and a long. -/
theorem read_compare_integer_zeros :
    let schema := Schema.empty.register (((EntityType.named "Sales").declare (.declared "Sales" "count" .int32)).declare
      (.declared "Sales" "sold" .dateTime))
    TypedFilter.read schema "Sales" "count lt -00000000000000000002147483648" =
        .ok (.compare ⟨"count", .int32, .int32, .scalar⟩ .lt (.integer (-2147483648))) ∧
      TypedFilter.read schema "Sales" "sold ge 99999999999999999999" =
        .error (.typing (.outOfRange "sold" .dateTime "99999999999999999999")) ∧
      TypedFilter.read schema "Sales" "count ne 02147483648L" =
        .error (.typing (.outOfRange "count" .int32 "2147483648L")) := by
  intro schema
  have hcount : Subject schema "Sales" "count" (.declared "Sales" "count" .int32) :=
    ⟨⟨by decide, by decide, by decide, by decide⟩, by decide, rfl⟩
  have hsold : Subject schema "Sales" "sold" (.declared "Sales" "sold" .dateTime) :=
    ⟨⟨by decide, by decide, by decide, by decide⟩, by decide, rfl⟩
  let least : IntegerText := ⟨true, "00000000000000000002147483648".toList, by decide⟩
  let wide : IntegerText := ⟨false, "99999999999999999999".toList, by decide⟩
  let long : IntegerText := ⟨false, "02147483648".toList, by decide⟩
  have hshown : (long.literal "L").text = "2147483648L" := by decide
  have hlong := (read_compare_integer hcount .ne long (.inr ⟨.inl rfl, by decide⟩)).1 rfl
  rw [hshown] at hlong
  exact ⟨(read_compare_integer hcount .lt least (.inl rfl)).1 rfl,
    (read_compare_integer hsold .ge wide (.inl rfl)).2 rfl, hlong⟩

end EntityStore.Filter
