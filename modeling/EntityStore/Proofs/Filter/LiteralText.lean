import EntityStore.Proofs.Double
import EntityStore.Proofs.Timestamp
import EntityStore.Proofs.Filter.Grammar
import EntityStore.Proofs.Filter.Lexing

/-!
# Reading written literals

The text of a literal is a single token that denotes it. Integers are written anew; the other numbers keep the
word they were read from. Main statement: `exists_token_of_denotes`.
-/
namespace EntityStore

namespace Filter

/-- A point in time lies in the years 0 to 9999, which are written with four digits. -/
def Literal.FourDigitYear : Literal → Prop
  | .dateTime millis | .dateTimeOffset millis =>
    0 ≤ (Timestamp.date millis).year ∧ (Timestamp.date millis).year ≤ 9999
  | _ => True

/-! ## Numbers -/

theorem spanDigits_append {digits rest : List Char} (hdigits : ∀ c ∈ digits, c.isDigit = true)
    (hrest : ∀ c, rest.head? = some c → c.isDigit = false) :
    Decimal.spanDigits (digits ++ rest) = (digits, rest) := by
  obtain ⟨htake, hdrop⟩ := span_append hdigits hrest
  rw [Decimal.spanDigits, htake, hdrop]

theorem digits_append_ne {digits : List Char} (h : Decimal.isDigits digits = true) {c : Char}
    (hc : c.isDigit = false) (rest more : List Char) : digits ++ rest ≠ c :: more := by
  cases digits with
  | nil => cases h
  | cons d digits =>
    rintro ⟨⟩
    simp [Decimal.isDigits, hc] at h

/-- Digits after an optional minus, before at most a suffix letter, are taken apart. -/
theorem read?_digits (negative : Bool) {digits suffix : List Char} (hdigits : Decimal.isDigits digits = true)
    (hsuffix : suffix = [] ∨ suffix = ['L'] ∨ suffix = ['l']) :
    NumericWord.read? ((if negative then ['-'] else []) ++ (digits ++ suffix)) =
      some ⟨negative, digits, none, none, suffix⟩ := by
  have hspan : Decimal.spanDigits (digits ++ suffix) = (digits, suffix) := by
    simp only [Decimal.isDigits, Bool.and_eq_true, List.all_eq_true] at hdigits
    refine spanDigits_append hdigits.2 ?_
    rcases hsuffix with rfl | rfl | rfl <;> simp
  have hend : NumericWord.readFraction? suffix = some (none, suffix) ∧
      Decimal.readExponent? suffix = some (none, suffix) := by
    rcases hsuffix with rfl | rfl | rfl <;> exact ⟨rfl, rfl⟩
  have hne : digits ≠ [] := by
    rintro rfl
    cases hdigits
  have hhead := digits_append_ne hdigits (by decide : ('-').isDigit = false) suffix
  cases negative with
  | true => simp [NumericWord.read?, hspan, hend, hne]
  | false => simp [NumericWord.read?, hspan, hend, hne]

/-- A written integer before at most a suffix letter is taken apart. -/
theorem read?_toString (n : Int) {suffix : List Char} (hsuffix : suffix = [] ∨ suffix = ['L']) :
    NumericWord.read? ((toString n).toList ++ suffix) =
      some ⟨decide (n < 0), Nat.toDigits 10 n.natAbs, none, none, suffix⟩ := by
  have hread := read?_digits (decide (n < 0)) (Decimal.isDigits_toDigits n.natAbs)
    (hsuffix.imp_right Or.inl)
  simpa only [Decimal.toList_toString_int, decide_eq_true_eq, List.append_assoc] using hread

theorem toInt_toString (n : Int) (suffix : List Char) :
    NumericWord.toInt ⟨decide (n < 0), Nat.toDigits 10 n.natAbs, none, none, suffix⟩ = n := by
  simp only [NumericWord.toInt, Decimal.ofDigits_toDigits, decide_eq_true_eq]
  split <;> omega

theorem readNumber?_toString {n : Int} (h : Decimal.fitsInt64 n = true) :
    readNumber? (toString n) = some (.ok (.integer n)) := by
  have hread := read?_toString n (.inl rfl)
  rw [List.append_nil] at hread
  rw [readNumber?, hread]
  simp [NumericWord.isIntegral, toInt_toString, h]

theorem readNumber?_toString_long {n : Int} (h : Decimal.fitsInt64 n = true) :
    readNumber? (toString n ++ "L") = some (.ok (.long n)) := by
  have hread := read?_toString n (.inr rfl)
  have hword : (toString n ++ "L").toList = (toString n).toList ++ ['L'] := String.toList_append
  rw [readNumber?, hword, hread]
  simp [NumericWord.isIntegral, toInt_toString, h]

/-- The numbers that a word can denote: an integer fits 64 bits, and any other number keeps the word. -/
inductive NumberOf (word : String) : Literal → Prop
  | integer {n : Int} (fits : Decimal.fitsInt64 n = true) : NumberOf word (.integer n)
  | long {n : Int} (fits : Decimal.fitsInt64 n = true) : NumberOf word (.long n)
  | double (numeral : Decimal.Numeral) : NumberOf word (.double (.ofNumeral numeral) word)
  | single (numeral : Decimal.Numeral) : NumberOf word (.single (.ofNumeral numeral) word)
  | decimal : NumberOf word (.decimal word)

theorem numberOf_of_readNumber? {word : String} {literal : Literal}
    (h : readNumber? word = some (.ok literal)) : NumberOf word literal := by
  unfold readNumber? at h
  split at h
  · cases h
  rename_i w _
  split at h
  · split at h
    · rename_i hfits
      cases h
      exact .integer (Bool.and_eq_true_iff.mp hfits).2
    · cases h; exact .double w.numeral
  · cases h; exact .double w.numeral
  · cases h; exact .double w.numeral
  · cases h; exact .single w.numeral
  · cases h; exact .single w.numeral
  · cases h; exact .decimal
  · cases h; exact .decimal
  · split_ifs at h with _ hfits
    · cases h
      exact .long hfits
    · cases h
  · split_ifs at h with _ hfits
    · cases h
      exact .long hfits
    · cases h
  · cases h

/-! ## Literals -/

theorem Denotes.ne_paren {k : TokenKind} {literal : Literal} (h : Denotes k literal) :
    k ≠ .openParen ∧ k ≠ .closeParen := by
  cases h <;> simp

theorem lexes_string {word : String} (hword : IsWord word.toList) : Lexes word.toList [.word word] := by
  simpa using lexes_word hword

theorem isWordChar_of_isDigit {c : Char} (h : c.isDigit = true) : isWordChar c = true := by
  have hrange : 48 ≤ c.toNat ∧ c.toNat ≤ 57 := Char.isDigit_iff_toNat.mp h
  have hblank : Text.isBlank c = false := by
    simp [Text.isBlank]
    omega
  have hother : ∀ d : Char, d.isDigit = false → c ≠ d := by
    rintro d hd rfl
    simp [h] at hd
  simp [isWordChar, hblank, hother, quote]

theorem isWord_toString (n : Int) : IsWord (toString n).toList := by
  constructor
  · rw [Decimal.toList_toString_int]
    exact List.append_ne_nil_of_right_ne_nil _ Nat.toDigits_ne_nil
  · intro c hc
    rw [Decimal.toList_toString_int, List.mem_append] at hc
    rcases hc with hc | hc
    · split at hc
      · rw [List.mem_singleton.mp hc]; decide
      · cases hc
    · exact isWordChar_of_isDigit (Decimal.isDigit_of_mem_toDigits hc)

theorem isWord_toString_long (n : Int) : IsWord (toString n ++ "L").toList := by
  obtain ⟨_, hchars⟩ := isWord_toString n
  rw [String.toList_append]
  refine ⟨by simp, fun c hc => ?_⟩
  rcases List.mem_append.mp hc with hc | hc
  · exact hchars c hc
  · obtain rfl : c = 'L' := by simpa using hc
    decide

/-- A text without quotes and backslashes. -/
def Plain (s : String) : Prop := ∀ c ∈ s.toList, c ≠ quote ∧ c ≠ '\\'

theorem Plain.append {s t : String} (hs : Plain s) (ht : Plain t) : Plain (s ++ t) := by
  intro c hc
  rw [String.toList_append, List.mem_append] at hc
  exact hc.elim (hs c) (ht c)

theorem plain_of_all {s : String} (h : s.toList.all (fun c => c ≠ quote ∧ c ≠ '\\') = true) : Plain s :=
  fun c hc => by simpa using List.all_eq_true.mp h c hc

theorem plain_of_isDigit {c : Char} (h : c.isDigit = true) : c ≠ quote ∧ c ≠ '\\' := by
  constructor
  · rintro rfl
    exact absurd h (by decide)
  · rintro rfl
    exact absurd h (by decide)

theorem plain_padded (width n : Nat) : Plain (Timestamp.padded width n) :=
  fun _ hc => plain_of_isDigit (Timestamp.isDigit_of_mem_padded hc)

theorem plain_yearText (year : Int) : Plain (Timestamp.yearText year) := by
  have hplus : Plain "+" := plain_of_all rfl
  have hminus : Plain "-" := plain_of_all rfl
  unfold Timestamp.yearText
  split_ifs
  · exact plain_padded _ _
  · exact hminus.append (plain_padded _ _)
  · exact hplus.append (plain_padded _ _)

theorem plain_toString_int (n : Int) : Plain (toString n) := by
  intro c hc
  rw [Decimal.toList_toString_int, List.mem_append] at hc
  rcases hc with hc | hc
  · split_ifs at hc
    · obtain rfl := List.mem_singleton.mp hc
      decide
    · cases hc
  · exact plain_of_isDigit (Decimal.isDigit_of_mem_toDigits hc)

theorem plain_text (millis : Int) : Plain (Timestamp.text millis) := by
  have hdash : Plain "-" := plain_of_all rfl
  have hletter : Plain "T" := plain_of_all rfl
  have hcolon : Plain ":" := plain_of_all rfl
  have hpoint : Plain "." := plain_of_all rfl
  have hfield : ∀ {s : String}, Plain s → ∀ {mark : String}, Plain mark → ∀ width n,
      Plain (s ++ mark ++ Timestamp.padded width n) :=
    fun hs _ hmark width n => (hs.append hmark).append (plain_padded width n)
  dsimp only [Timestamp.text]
  split_ifs
  · apply hfield _ hpoint
    apply hfield _ hcolon
    apply hfield _ hcolon
    apply hfield _ hletter
    apply hfield _ hdash
    exact hfield (plain_yearText _) hdash _ _
  · exact plain_toString_int millis

/-- An instant between quotes after a tag is cut out whole. -/
theorem lexes_instant {tag suffix : String} (htag : IsWord tag.toList) (hsuffix : suffix = "" ∨ suffix = "+00:00")
    (millis : Int) :
    Lexes (tag.toList ++ quote :: ((Timestamp.text millis ++ suffix).toList ++ [quote]))
      [.tagged tag (Timestamp.text millis ++ suffix)] := by
  have hplain : Plain (Timestamp.text millis ++ suffix) := by
    refine (plain_text millis).append (plain_of_all ?_)
    rcases hsuffix with rfl | rfl <;> rfl
  have hlexes := lexes_tagged htag (quotes_of_plain hplain)
  rwa [String.ofList_toList, String.ofList_toList] at hlexes

theorem toList_text_dateTime (millis : Int) :
    (Literal.dateTime millis).text.toList =
      "datetime".toList ++ quote :: ((Timestamp.text millis ++ "").toList ++ [quote]) := by
  have htext : (Literal.dateTime millis).text = "datetime\x27" ++ Timestamp.text millis ++ "\x27" := rfl
  have htag : "datetime\x27".toList = "datetime".toList ++ [quote] := rfl
  have hquote : "\x27".toList = [quote] := rfl
  rw [htext, String.append_empty, String.toList_append, String.toList_append, htag, hquote]
  simp only [List.append_assoc, List.cons_append, List.nil_append]

theorem toList_text_dateTimeOffset (millis : Int) :
    (Literal.dateTimeOffset millis).text.toList =
      "datetimeoffset".toList ++ quote :: ((Timestamp.text millis ++ "+00:00").toList ++ [quote]) := by
  have htext : (Literal.dateTimeOffset millis).text =
      "datetimeoffset\x27" ++ Timestamp.text millis ++ "+00:00\x27" := rfl
  have htag : "datetimeoffset\x27".toList = "datetimeoffset".toList ++ [quote] := rfl
  have hoffset : "+00:00\x27".toList = "+00:00".toList ++ [quote] := rfl
  rw [htext, String.toList_append, String.toList_append, String.toList_append, htag, hoffset]
  simp only [List.append_assoc, List.cons_append, List.nil_append]

theorem toList_text_string (s : String) :
    (Literal.string s).text.toList = quote :: (Literal.doubleQuotes (escape s.toList) ++ [quote]) :=
  String.toList_ofList

/-- Whatever token a literal was read from, its text is a token that denotes it. -/
theorem exists_token_of_denotes {k : TokenKind} {literal : Literal} (h : Denotes k literal)
    (hword : ∀ word, k = .word word → IsWord word.toList) (hyear : literal.FourDigitYear) :
    ∃ k', Denotes k' literal ∧ Lexes literal.text.toList [k'] := by
  cases h with
  | null => exact ⟨_, .null, lexes_string (hword _ rfl)⟩
  | true => exact ⟨_, .true, lexes_string (hword _ rfl)⟩
  | false => exact ⟨_, .false, lexes_string (hword _ rfl)⟩
  | @number word _ hread =>
    cases numberOf_of_readNumber? hread with
    | @integer n hfits => exact ⟨_, .number (readNumber?_toString hfits), lexes_string (isWord_toString n)⟩
    | @long n hfits => exact ⟨_, .number (readNumber?_toString_long hfits), lexes_string (isWord_toString_long n)⟩
    | double | single | decimal => exact ⟨_, .number hread, lexes_string (hword _ rfl)⟩
  | @string raw value hdecoded =>
    have hlexes := lexes_quoted (quotes_escape value)
    refine ⟨.quoted (.ofList (escape value)), .string (by rw [String.toList_ofList, unescape_escape]), ?_⟩
    rwa [toList_text_string, String.toList_ofList]
  | @dateTime body millis _ =>
    have hread := Timestamp.read?_text_append hyear.1 hyear.2 (.inl rfl)
    refine ⟨_, .dateTime hread, ?_⟩
    rw [toList_text_dateTime]
    exact lexes_instant ⟨by simp, List.all_eq_true.mp rfl⟩ (.inl rfl) millis
  | @dateTimeOffset body millis _ =>
    have hread := Timestamp.read?_text_append hyear.1 hyear.2 (.inr rfl)
    refine ⟨_, .dateTimeOffset hread, ?_⟩
    rw [toList_text_dateTimeOffset]
    exact lexes_instant ⟨by simp, List.all_eq_true.mp rfl⟩ (.inr rfl) millis

end Filter

end EntityStore
