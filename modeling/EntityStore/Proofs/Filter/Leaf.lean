import EntityStore.Proofs.Except
import EntityStore.Proofs.Filter.Grammar
import EntityStore.Proofs.Filter.Parentheses

/-!
# Reading comparisons and calls

The readers of names, operators, literals, comparisons and calls take what the grammar says they take. Main
statements: `readLeaf_sound` and `readLeaf_complete`.
-/
namespace EntityStore.Filter

variable {stop : Nat}

/-! ## Single tokens -/

theorem expect_eq_ok_iff {kind : TokenKind} {what : Expectation} {ts rest : List Token} :
    expect stop kind what ts = .ok rest ↔ ∃ position, ts = ⟨kind, position⟩ :: rest := by
  cases ts with
  | nil => simp [expect]
  | cons token ts =>
    obtain ⟨k, position⟩ := token
    by_cases h : k = kind <;> simp [expect, h]

theorem checkProperty_eq_ok_iff {position : Nat} {name : String} :
    checkProperty position name = .ok () ↔
      Name.isReserved name = false ∧ Name.isNavigation name = false ∧ Name.isValid name = true := by
  unfold checkProperty
  cases Name.isReserved name <;> cases Name.isNavigation name <;> cases Name.isValid name <;> simp

theorem readProperty_eq_ok_iff {ts rest : List Token} {property : String} :
    readProperty stop ts = .ok (property, rest) ↔
      ∃ position, ts = ⟨.word property, position⟩ :: rest ∧ IsPropertyName property := by
  constructor
  · intro h
    unfold readProperty at h
    split at h
    · split at h
      · cases h
      · rename_i word position more hliteral
        obtain ⟨⟨⟩, hcheck, heq⟩ := map_eq_ok.mp h
        cases heq
        obtain ⟨hreserved, hnavigation, hvalid⟩ := checkProperty_eq_ok_iff.mp hcheck
        exact ⟨position, rfl, hvalid, hreserved, hnavigation, by simpa using hliteral⟩
    · cases h
  · rintro ⟨position, rfl, hname⟩
    have hcheck : checkProperty position property = .ok () :=
      checkProperty_eq_ok_iff.mpr ⟨hname.notReserved, hname.notNavigation, hname.valid⟩
    simp [readProperty, hname.notLiteral, hcheck, Except.map]

theorem readNumber?_null : readNumber? "null" = none := by decide

theorem readNumber?_true : readNumber? "true" = none := by decide

theorem readNumber?_false : readNumber? "false" = none := by decide

theorem wordLiteral_eq_ok_iff {position : Nat} {word : String} {literal : Literal} :
    wordLiteral position word = .ok literal ↔ Denotes (.word word) literal := by
  constructor
  · intro h
    unfold wordLiteral at h
    split at h
    · rename_i hword
      cases h; subst hword; exact .null
    split at h
    · rename_i hword
      cases h; subst hword; exact .true
    split at h
    · rename_i hword
      cases h; subst hword; exact .false
    split at h
    · rename_i hread
      cases h
      exact .number hread
    · cases h
    · split at h <;> cases h
  · intro h
    cases h with
    | null | true | false => rfl
    | number hread =>
      have hnull : word ≠ "null" := by rintro rfl; simp [readNumber?_null] at hread
      have htrue : word ≠ "true" := by rintro rfl; simp [readNumber?_true] at hread
      have hfalse : word ≠ "false" := by rintro rfl; simp [readNumber?_false] at hread
      rw [wordLiteral, if_neg hnull, if_neg htrue, if_neg hfalse, hread]

theorem taggedLiteral_eq_ok_iff {position : Nat} {tag body : String} {literal : Literal} :
    taggedLiteral position tag body = .ok literal ↔ Denotes (.tagged tag body) literal := by
  constructor
  · intro h
    simp only [taggedLiteral] at h
    cases hread : Timestamp.read? body with
    | none => simp [hread] at h; split_ifs at h <;> simp at h
    | some millis =>
      simp only [hread] at h
      split_ifs at h with hdate hoffset
      · cases h; subst hdate; exact .dateTime hread
      · cases h; subst hoffset; exact .dateTimeOffset hread
  · intro h
    cases h with
    | dateTime hread => simp [taggedLiteral, hread, Except.map]
    | dateTimeOffset hread => simp [taggedLiteral, hread, Except.map]

theorem readLiteral_eq_ok_iff {ts rest : List Token} {literal : Literal} :
    readLiteral stop ts = .ok (literal, rest) ↔
      ∃ k position, ts = ⟨k, position⟩ :: rest ∧ Denotes k literal := by
  constructor
  · intro h
    unfold readLiteral at h
    split at h
    · cases h
    · split at h
      · rename_i hdecoded
        cases h
        exact ⟨_, _, rfl, .string hdecoded⟩
      · cases h
    · obtain ⟨literal, hl, heq⟩ := map_eq_ok.mp h
      cases heq
      exact ⟨_, _, rfl, taggedLiteral_eq_ok_iff.mp hl⟩
    · obtain ⟨literal, hl, heq⟩ := map_eq_ok.mp h
      cases heq
      exact ⟨_, _, rfl, wordLiteral_eq_ok_iff.mp hl⟩
    · cases h
  · rintro ⟨k, position, rfl, h⟩
    cases k with
    | openParen | closeParen | comma => cases h
    | word word => simp [readLiteral, wordLiteral_eq_ok_iff.mpr h, Except.map]
    | quoted raw =>
      cases h with
      | string hdecoded => simp [readLiteral, hdecoded]
    | tagged tag body => simp [readLiteral, taggedLiteral_eq_ok_iff.mpr h, Except.map]

theorem readComparator_eq_ok_iff {ts rest : List Token} {op : Comparator} :
    readComparator stop ts = .ok (op, rest) ↔ ∃ position, ts = ⟨.word op.word, position⟩ :: rest := by
  constructor
  · intro h
    unfold readComparator at h
    split at h
    · split at h
      · rename_i hop
        cases h
        obtain rfl := Comparator.ofWord?_eq_some_iff.mp hop
        exact ⟨_, rfl⟩
      · split_ifs at h
    · cases h
  · rintro ⟨position, rfl⟩
    simp [readComparator, Comparator.ofWord?_word]

/-! ## Comparisons and calls -/

theorem readComparison_sound {property : String} {position : Nat} {ts rest : List Token} {t : Filter}
    (h : readComparison stop property position ts = .ok (t, rest)) (hsubject : property ∉ operatorWords)
    (hliteral : isLiteralWord property = false) :
    ∃ used, ts = used ++ rest ∧ Derives .operand (.word property :: kinds used) t := by
  simp only [readComparison, bind_eq_ok, Prod.exists, readComparator_eq_ok_iff, readLiteral_eq_ok_iff] at h
  obtain ⟨⟨⟩, hcheck, op, _, ⟨p, rfl⟩, operand, _, ⟨k, p', rfl, hdenotes⟩, h⟩ := h
  split at h
  · cases h
  · rename_i hordered
    cases h
    obtain ⟨hreserved, hnavigation, hvalid⟩ := checkProperty_eq_ok_iff.mp hcheck
    refine ⟨[⟨.word op.word, p⟩, ⟨k, p'⟩], rfl, .compare ⟨hvalid, hreserved, hnavigation, hliteral⟩ hsubject
      hdenotes fun ho => ?_⟩
    simpa [ho] using hordered

theorem readComparison_complete {property : String} {op : Comparator} {k : TokenKind} {operand : Literal}
    (hname : IsPropertyName property) (hdenotes : Denotes k operand)
    (hordered : op.isOrdering = true → operand.isNull = false ∧ operand.isBoolean = false)
    (position p p' : Nat) (rest : List Token) :
    readComparison stop property position (⟨.word op.word, p⟩ :: ⟨k, p'⟩ :: rest) =
      .ok (.compare property op operand, rest) := by
  simp only [readComparison, bind_eq_ok, Prod.exists, readComparator_eq_ok_iff, readLiteral_eq_ok_iff]
  refine ⟨(), checkProperty_eq_ok_iff.mpr ⟨hname.notReserved, hname.notNavigation, hname.valid⟩, op, _, ⟨p, rfl⟩,
    operand, _, ⟨k, p', rfl, hdenotes⟩, if_neg ?_⟩
  intro hboth
  cases ho : op.isOrdering with
  | false => simp [ho] at hboth
  | true => simp [hordered ho] at hboth

theorem functionOfWord_eq_ok_iff {position : Nat} {word : String} {test : StringTest} :
    functionOfWord position word = .ok test ↔ word = test.word := by
  constructor
  · intro h
    unfold functionOfWord at h
    split at h
    · rename_i hword
      cases h; exact hword
    split at h
    · rename_i hword
      cases h; exact hword
    split at h <;> cases h
  · rintro rfl
    cases test <;> rfl

theorem readCall_sound {word : String} {position : Nat} {ts rest : List Token} {t : Filter}
    (h : readCall stop word position ts = .ok (t, rest)) :
    ∃ used, ts = used ++ rest ∧ Derives .operand (.word word :: kinds used) t := by
  simp only [readCall, bind_eq_ok, functionOfWord_eq_ok_iff] at h
  obtain ⟨test, rfl, h⟩ := h
  cases test with
  | startsWith =>
    simp only [bind_eq_ok, Prod.exists, expect_eq_ok_iff, readProperty_eq_ok_iff, readLiteral_eq_ok_iff,
      pure_eq_ok] at h
    obtain ⟨_, ⟨p₁, rfl⟩, property, _, ⟨p₂, rfl, hname⟩, _, ⟨p₃, rfl⟩, operand, _, ⟨k, p₄, rfl, hdenotes⟩,
      _, ⟨p₅, rfl⟩, heq⟩ := h
    cases heq
    exact ⟨[⟨.openParen, p₁⟩, ⟨.word property, p₂⟩, ⟨.comma, p₃⟩, ⟨k, p₄⟩, ⟨.closeParen, p₅⟩], rfl,
      .startsWith hname hdenotes⟩
  | substringOf =>
    simp only [bind_eq_ok, Prod.exists, expect_eq_ok_iff, readProperty_eq_ok_iff, readLiteral_eq_ok_iff,
      pure_eq_ok] at h
    obtain ⟨_, ⟨p₁, rfl⟩, operand, _, ⟨k, p₂, rfl, hdenotes⟩, _, ⟨p₃, rfl⟩, property, _, ⟨p₄, rfl, hname⟩,
      _, ⟨p₅, rfl⟩, heq⟩ := h
    cases heq
    exact ⟨[⟨.openParen, p₁⟩, ⟨k, p₂⟩, ⟨.comma, p₃⟩, ⟨.word property, p₄⟩, ⟨.closeParen, p₅⟩], rfl,
      .substringOf hname hdenotes⟩

theorem readCall_startsWith {property : String} {k : TokenKind} {operand : Literal}
    (hname : IsPropertyName property) (hdenotes : Denotes k operand) (position p₁ p₂ p₃ p₄ p₅ : Nat)
    (rest : List Token) :
    readCall stop "startswith" position (⟨.openParen, p₁⟩ :: ⟨.word property, p₂⟩ :: ⟨.comma, p₃⟩ :: ⟨k, p₄⟩ ::
      ⟨.closeParen, p₅⟩ :: rest) = .ok (.test .startsWith property operand, rest) := by
  simp only [readCall, bind_eq_ok, functionOfWord_eq_ok_iff]
  refine ⟨.startsWith, rfl, ?_⟩
  simp only [bind_eq_ok, Prod.exists, expect_eq_ok_iff, readProperty_eq_ok_iff, readLiteral_eq_ok_iff]
  exact ⟨_, ⟨p₁, rfl⟩, property, _, ⟨p₂, rfl, hname⟩, _, ⟨p₃, rfl⟩, operand, _, ⟨k, p₄, rfl, hdenotes⟩,
    _, ⟨p₅, rfl⟩, rfl⟩

theorem readCall_substringOf {property : String} {k : TokenKind} {operand : Literal}
    (hname : IsPropertyName property) (hdenotes : Denotes k operand) (position p₁ p₂ p₃ p₄ p₅ : Nat)
    (rest : List Token) :
    readCall stop "substringof" position (⟨.openParen, p₁⟩ :: ⟨k, p₂⟩ :: ⟨.comma, p₃⟩ :: ⟨.word property, p₄⟩ ::
      ⟨.closeParen, p₅⟩ :: rest) = .ok (.test .substringOf property operand, rest) := by
  simp only [readCall, bind_eq_ok, functionOfWord_eq_ok_iff]
  refine ⟨.substringOf, rfl, ?_⟩
  simp only [bind_eq_ok, Prod.exists, expect_eq_ok_iff, readProperty_eq_ok_iff, readLiteral_eq_ok_iff]
  exact ⟨_, ⟨p₁, rfl⟩, operand, _, ⟨k, p₂, rfl, hdenotes⟩, _, ⟨p₃, rfl⟩, property, _, ⟨p₄, rfl, hname⟩,
    _, ⟨p₅, rfl⟩, rfl⟩

theorem mem_operatorWords {word : String} :
    word ∈ operatorWords ↔ word = "and" ∨ word = "or" ∨ unsupportedOperators.contains word = true := by
  simp [operatorWords, unsupportedOperators]

theorem readLeaf_sound {word : String} {position : Nat} {ts rest : List Token} {t : Filter}
    (h : readLeaf stop word position ts = .ok (t, rest)) :
    ∃ used, ts = used ++ rest ∧ Derives .operand (.word word :: kinds used) t := by
  unfold readLeaf at h
  split at h
  · cases h
  rename_i hconnective
  split at h
  · cases h
  rename_i hunsupported
  split at h
  · exact readCall_sound h
  · split at h
    · cases h
    · rename_i hliteral
      refine readComparison_sound h ?_ (by simpa using hliteral)
      rw [mem_operatorWords]
      simp only [Bool.or_eq_true, decide_eq_true_eq, not_or] at hconnective
      tauto

/-- A derivation from a word is read from the tokens after the word. -/
theorem readLeaf_complete {word : String} {used : List Token} {t : Filter}
    (h : Derives .operand (.word word :: kinds used) t) (position : Nat) (rest : List Token) :
    readLeaf stop word position (used ++ rest) = .ok (t, rest) := by
  generalize hks : TokenKind.word word :: kinds used = ks at h
  cases h with
  | group _ => simp at hks
  | @compare property op k operand hname hsubject hdenotes hordered =>
    obtain ⟨hword, hused⟩ := List.cons.inj hks
    cases hword
    simp only [kinds_eq_cons_iff, kinds_eq_nil_iff] at hused
    obtain ⟨p, _, rfl, p', _, rfl, rfl⟩ := hused
    simp only [mem_operatorWords, not_or, List.contains_iff_mem] at hsubject
    obtain ⟨hand, hor, hunsupported⟩ := hsubject
    have hread : readComparison stop word position (⟨.word op.word, p⟩ :: ⟨k, p'⟩ :: rest) =
        .ok (.compare word op operand, rest) :=
      readComparison_complete hname hdenotes hordered position p p' rest
    simp [readLeaf, hand, hor, hunsupported, hname.notLiteral, hread]
  | @startsWith property k operand hname hdenotes =>
    obtain ⟨hword, hused⟩ := List.cons.inj hks
    cases hword
    simp only [kinds_eq_cons_iff, kinds_eq_nil_iff] at hused
    obtain ⟨p₁, _, rfl, p₂, _, rfl, p₃, _, rfl, p₄, _, rfl, p₅, _, rfl, rfl⟩ := hused
    exact readCall_startsWith hname hdenotes position p₁ p₂ p₃ p₄ p₅ rest
  | @substringOf property k operand hname hdenotes =>
    obtain ⟨hword, hused⟩ := List.cons.inj hks
    cases hword
    simp only [kinds_eq_cons_iff, kinds_eq_nil_iff] at hused
    obtain ⟨p₁, _, rfl, p₂, _, rfl, p₃, _, rfl, p₄, _, rfl, p₅, _, rfl, rfl⟩ := hused
    exact readCall_substringOf hname hdenotes position p₁ p₂ p₃ p₄ p₅ rest

end EntityStore.Filter
