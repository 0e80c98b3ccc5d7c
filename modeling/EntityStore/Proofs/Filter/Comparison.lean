import EntityStore.Proofs.Filter.Admissible
import EntityStore.Proofs.Filter.QuotedText
import EntityStore.Query.Planning

/-!
# Comparisons with numbers

A property, a comparator and a number with blanks between them are read as a comparison; what is left to check is
whether the type of the property takes the number. Main statement: `read_compare_number`.
-/
namespace EntityStore

/-- A property as a filter uses it, if its type is declared or recorded. -/
def Property.use (p : Property) : Filter.PropertyUse := ⟨p.name, p.type, p.type, p.multiplicity⟩

namespace Filter

/-- On the left of a comparison, the name stands for this property of the type. -/
structure Subject (schema : Schema) (entityType name : String) (p : Property) : Prop where
  isName : IsPropertyName name
  notOperator : name ∉ operatorWords
  property : schema.property? entityType name = some p

variable {schema : Schema} {entityType name word : String} {p : Property} {literal : Literal}

theorem Subject.names (h : Subject schema entityType name p) : Names schema entityType name p :=
  ⟨h.isName.notReserved, h.isName.notNavigation, h.property⟩

/-! ## Words -/

theorem mem_readSign {cs : List Char} {c : Char} (h : c ∈ cs) : c ∈ (Decimal.readSign cs).2 ∨ c = '-' ∨ c = '+' := by
  rw [Decimal.readSign.eq_def]
  split
  · rcases List.mem_cons.mp h with rfl | h
    · exact .inr (.inl rfl)
    · exact .inl h
  · rcases List.mem_cons.mp h with rfl | h
    · exact .inr (.inr rfl)
    · exact .inl h
  · exact .inl h

theorem isWordChar_of_isExponent {text : List Char} {n : Int} (h : Decimal.IsExponent text n) :
    ∀ c ∈ text, isWordChar c = true := by
  obtain ⟨letter, rest, rfl, hletter⟩ := h.letter
  have hmark : (letter == 'e' || letter == 'E') = true := by simpa using hletter
  have hreads := h.reads
  obtain ⟨⟨digits, after⟩, hspan⟩ : ∃ parts, Decimal.spanDigits (Decimal.readSign rest).2 = parts := ⟨_, rfl⟩
  obtain ⟨hparts, hdigits⟩ := Decimal.spanDigits_eq hspan
  simp only [Decimal.readExponent?, hmark, if_true, hspan] at hreads
  split at hreads
  · cases hreads
  cases hreads
  rw [List.append_nil] at hparts
  intro c hc
  rcases List.mem_cons.mp hc with rfl | hc
  · rcases hletter with rfl | rfl <;> decide
  rcases mem_readSign hc with hc | rfl | rfl
  · exact isWordChar_of_isDigit (hdigits c (hparts ▸ hc))
  · decide
  · decide

theorem NumericWord.Spells.isWord {w : NumericWord} {text cs : List Char} (h : w.Spells text cs)
    (hsuffix : ∀ c ∈ w.suffix, isWordChar c = true) : IsWord cs := by
  obtain ⟨hne, hwhole⟩ := Decimal.isDigits_iff.mp h.whole
  rw [h.chars]
  refine ⟨by simp [hne], ?_⟩
  have hsign : ∀ c ∈ w.sign, isWordChar c = true := by
    intro c hc
    rw [NumericWord.sign] at hc
    split at hc
    · obtain rfl := List.mem_singleton.mp hc
      decide
    · cases hc
  have hfraction : ∀ c ∈ w.fractionText, isWordChar c = true := by
    intro c hc
    rw [NumericWord.fractionText] at hc
    split at hc
    · cases hc
    · rename_i digits hdigits
      rcases List.mem_cons.mp hc with rfl | hc
      · decide
      · exact isWordChar_of_isDigit ((Decimal.isDigits_iff.mp (h.fraction digits hdigits)).2 c hc)
  have hexponent : ∀ c ∈ text, isWordChar c = true := by
    rcases h.exponent with ⟨-, rfl⟩ | ⟨n, -, htext⟩
    · intro c hc
      cases hc
    · exact isWordChar_of_isExponent htext
  simp only [List.forall_mem_append]
  exact ⟨hsign, ⟨⟨fun c hc => isWordChar_of_isDigit (hwhole c hc), hfraction⟩, hexponent⟩, hsuffix⟩

/-- What has the shape of a number is a word. -/
theorem isWord_of_readNumber? {r : Except Fault Literal} (h : readNumber? word = some r) : IsWord word.toList := by
  unfold readNumber? at h
  split at h
  · cases h
  rename_i w hread
  obtain ⟨text, hspells⟩ := NumericWord.exists_spells hread
  apply hspells.isWord
  have hletters : ∀ suffix : List Char, suffix.all isWordChar = true → w.suffix = suffix →
      ∀ c ∈ w.suffix, isWordChar c = true := fun _ hall heq => heq ▸ List.all_eq_true.mp hall
  split at h
  case h_10 => cases h
  all_goals
    rename_i heq
    exact hletters _ (by decide) heq

theorem isWord_comparator (op : Comparator) : IsWord op.word.toList := by
  cases op <;> exact ⟨by decide, List.all_eq_true.mp (by decide)⟩

theorem not_isNull_of_readNumber? (h : readNumber? word = some (.ok literal)) :
    literal.isNull = false ∧ literal.isBoolean = false := by
  cases numberOf_of_readNumber? h <;> exact ⟨rfl, rfl⟩

/-! ## Reading -/

theorem parse_compare_number (hname : IsPropertyName name) (hsubject : name ∉ operatorWords) (op : Comparator)
    (hread : readNumber? word = some (.ok literal)) :
    parse (name ++ " " ++ op.word ++ " " ++ word) = .ok (.compare name op literal) := by
  have hsentence : Sentence [.word name, .word op.word, .word word] (.compare name op literal) := by
    have hleaf : Derives (.below .and) [.word name, .word op.word, .word word] (.compare name op literal) :=
      .compare hname hsubject (.number hread) fun _ => not_isNull_of_readNumber? hread
    have hchain : Derives (.below .or) _ _ := .single hleaf
    exact ⟨.single hchain, by simp [nesting], by simp [connectives]⟩
  have hlexes : Lexes (name ++ " " ++ op.word ++ " " ++ word).toList [.word name, .word op.word, .word word] := by
    have htext : (name ++ " " ++ op.word ++ " " ++ word).toList =
        name.toList ++ ' ' :: (op.word.toList ++ ' ' :: word.toList) := by simp
    rw [htext]
    exact (lexes_string hname.isWord).spaced
      ((lexes_string (isWord_comparator op)).spaced (lexes_string (isWord_of_readNumber? hread)))
  exact parse_of_balanced hlexes (balanced_of_plain (by simp)) hsentence

/-- A comparison of a property that is ordered comes to the check of its operand. -/
theorem typed_compare (hsubject : Subject schema entityType name p) (htype : p.type ≠ .undeclared)
    (hordered : p.type.isOrdered = true) (op : Comparator) (literal : Literal) :
    typed schema entityType (.compare name op literal) = (coerce p.use op.word literal).map (.compare p.use op) := by
  have huse : usedWith p literal = p.use := by rw [usedWith, effectiveType, if_neg htype, Property.use]
  have heffective : p.use.effective = p.type := rfl
  simp only [typed, resolve_of_names hsubject.names, huse, heffective, hordered, Bool.not_true, Bool.and_false,
    bind, Except.bind]
  cases coerce p.use op.word literal <;> rfl

/-- A comparison with a number is read from its text, and then only the number is checked. -/
theorem read_compare_number (hsubject : Subject schema entityType name p) (htype : p.type ≠ .undeclared)
    (hordered : p.type.isOrdered = true) (op : Comparator) (hread : readNumber? word = some (.ok literal)) :
    TypedFilter.read schema entityType (name ++ " " ++ op.word ++ " " ++ word) =
      ((coerce p.use op.word literal).map (.compare p.use op)).mapError .typing := by
  rw [TypedFilter.read, parse_compare_number hsubject.isName hsubject.notOperator op hread,
    ← typed_compare hsubject htype hordered]
  rfl

end Filter

end EntityStore
