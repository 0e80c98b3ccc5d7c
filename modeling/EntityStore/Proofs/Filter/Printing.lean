import EntityStore.Proofs.Filter.LiteralText
import EntityStore.Proofs.Filter.Reading

/-!
# Reading written filters

The text of a filter that was read from some text is read as the same filter. The text has its own tokens: literals
are written anew, and opening parentheses that were never closed are gone. Main statement: `parse_text`.
-/
namespace EntityStore.Filter

/-- The operands of a filter, from left to right. -/
def operands : Filter → List Literal
  | compare _ _ operand | test _ _ operand => [operand]
  | join _ left right => left.operands ++ right.operands
  | group inner => inner.operands

/-! ## Characters of the text -/

theorem toList_text_compare (property : String) (op : Comparator) (operand : Literal) :
    (compare property op operand).text.toList =
      property.toList ++ ' ' :: (op.word.toList ++ ' ' :: operand.text.toList) := by
  have htext : (compare property op operand).text = property ++ " " ++ op.word ++ " " ++ operand.text := rfl
  simp [htext]

theorem toList_text_startsWith (property : String) (operand : Literal) :
    (test .startsWith property operand).text.toList =
      "startswith".toList ++ '(' :: ((property.toList ++ ',' :: operand.text.toList) ++ [')']) := by
  have htext : (test .startsWith property operand).text =
      "startswith(" ++ property ++ "," ++ operand.text ++ ")" := rfl
  have hopen : "startswith(".toList = "startswith".toList ++ ['('] := rfl
  simp [htext, hopen]

theorem toList_text_substringOf (property : String) (operand : Literal) :
    (test .substringOf property operand).text.toList =
      "substringof".toList ++ '(' :: ((operand.text.toList ++ ',' :: property.toList) ++ [')']) := by
  have htext : (test .substringOf property operand).text =
      "substringof(" ++ operand.text ++ "," ++ property ++ ")" := rfl
  have hopen : "substringof(".toList = "substringof".toList ++ ['('] := rfl
  simp [htext, hopen]

theorem toList_text_join (c : Connective) (left right : Filter) :
    (join c left right).text.toList =
      left.text.toList ++ ' ' :: (c.word.toList ++ ' ' :: right.text.toList) := by
  have htext : (join c left right).text = left.text ++ " " ++ c.word ++ " " ++ right.text := rfl
  simp [htext]

theorem toList_text_group (inner : Filter) : (group inner).text.toList = '(' :: (inner.text.toList ++ [')']) := by
  have htext : (group inner).text = "(" ++ inner.text ++ ")" := rfl
  simp [htext]

/-! ## Tokens of the text -/

/-- Every word among the tokens consists of word characters. -/
def WordsFit (ks : List TokenKind) : Prop := ∀ word, .word word ∈ ks → IsWord word.toList

theorem WordsFit.subset {ks ks' : List TokenKind} (h : WordsFit ks) (hsub : ks' ⊆ ks) : WordsFit ks' :=
  fun word hword => h word (hsub hword)

theorem Lexes.spaced {cs rest : List Char} {ks ls : List TokenKind} (h : Lexes cs ks) (h' : Lexes rest ls) :
    Lexes (cs ++ ' ' :: rest) (ks ++ ls) :=
  h.before (h'.blank rfl) (by decide) (by decide)

theorem Lexes.comma {cs rest : List Char} {ks ls : List TokenKind} (h : Lexes cs ks) (h' : Lexes rest ls) :
    Lexes (cs ++ ',' :: rest) (ks ++ .comma :: ls) :=
  h.before (h'.mark rfl) (by decide) (by decide)

theorem Lexes.parenthesized {cs : List Char} {ks : List TokenKind} (h : Lexes cs ks) :
    Lexes ('(' :: (cs ++ [')'])) (.openParen :: (ks ++ [TokenKind.closeParen])) :=
  .mark (h.before (lexes_nil.mark rfl) (by decide) (by decide)) rfl

theorem Lexes.called {word : String} {cs : List Char} {ks : List TokenKind} (hword : IsWord word.toList)
    (h : Lexes cs ks) :
    Lexes (word.toList ++ '(' :: (cs ++ [')'])) (.word word :: .openParen :: (ks ++ [TokenKind.closeParen])) :=
  (lexes_string hword).before h.parenthesized (by decide) (by decide)

theorem balanced_of_plain {ks : List TokenKind} (h : ∀ k ∈ ks, k ≠ .openParen ∧ k ≠ .closeParen) :
    Balanced ks := by
  induction ks with
  | nil => exact .nil
  | cons k ks ih =>
    obtain ⟨hopen, hclose⟩ := h k (by simp)
    exact .skip hopen hclose (ih fun l hl => h l (by simp [hl]))

theorem Balanced.parenthesized {ks : List TokenKind} (h : Balanced ks) :
    Balanced (.openParen :: (ks ++ [TokenKind.closeParen])) :=
  .group h .nil

/-- The text is cut into balanced tokens that denote the tree. -/
def Prints (level : Level) (t : Filter) : Prop :=
  ∃ ks, Derives level ks t ∧ Balanced ks ∧ Lexes t.text.toList ks

theorem prints_of_derives {level : Level} {ks : List TokenKind} {t : Filter} (h : Derives level ks t)
    (hwords : WordsFit ks) (hyears : ∀ literal ∈ t.operands, literal.FourDigitYear) : Prints level t := by
  induction h with
  | @compare property op k operand name subject denotes ordered =>
    obtain ⟨k', hdenotes, hlexes⟩ := exists_token_of_denotes denotes
      (fun word hk => hwords word (by simp [hk])) (hyears operand (by simp [operands]))
    have hproperty : IsWord property.toList := hwords property (by simp)
    have hop : IsWord op.word.toList := hwords op.word (by simp)
    refine ⟨_, .compare name subject hdenotes ordered, ?_, ?_⟩
    · exact balanced_of_plain (by simp [hdenotes.ne_paren])
    · rw [toList_text_compare]
      exact (lexes_string hproperty).spaced ((lexes_string hop).spaced hlexes)
  | @startsWith property k operand name denotes =>
    obtain ⟨k', hdenotes, hlexes⟩ := exists_token_of_denotes denotes
      (fun word hk => hwords word (by simp [hk])) (hyears operand (by simp [operands]))
    have hproperty : IsWord property.toList := hwords property (by simp)
    have hcall : IsWord "startswith".toList := hwords "startswith" (by simp)
    refine ⟨_, .startsWith name hdenotes, ?_, ?_⟩
    · have harguments : Balanced [.word property, .comma, k'] := balanced_of_plain (by simp [hdenotes.ne_paren])
      exact .skip (by simp) (by simp) harguments.parenthesized
    · rw [toList_text_startsWith]
      exact ((lexes_string hproperty).comma hlexes).called hcall
  | @substringOf property k operand name denotes =>
    obtain ⟨k', hdenotes, hlexes⟩ := exists_token_of_denotes denotes
      (fun word hk => hwords word (by simp [hk])) (hyears operand (by simp [operands]))
    have hproperty : IsWord property.toList := hwords property (by simp)
    have hcall : IsWord "substringof".toList := hwords "substringof" (by simp)
    refine ⟨_, .substringOf name hdenotes, ?_, ?_⟩
    · have harguments : Balanced [k', .comma, .word property] := balanced_of_plain (by simp [hdenotes.ne_paren])
      exact .skip (by simp) (by simp) harguments.parenthesized
    · rw [toList_text_substringOf]
      exact (hlexes.comma (lexes_string hproperty)).called hcall
  | @group ks inner inside ih =>
    obtain ⟨ks', hderives, hbalanced, hlexes⟩ := ih (hwords.subset (by simp)) hyears
    refine ⟨_, .group hderives, hbalanced.parenthesized, ?_⟩
    rw [toList_text_group]
    exact hlexes.parenthesized
  | single _ ih =>
    obtain ⟨ks', hderives, hprinted⟩ := ih hwords hyears
    exact ⟨ks', .single hderives, hprinted⟩
  | @join c ks ks' left right before last ih ih' =>
    have hleft : ∀ literal ∈ left.operands, literal.FourDigitYear :=
      fun literal hl => hyears literal (List.mem_append_left _ hl)
    have hright : ∀ literal ∈ right.operands, literal.FourDigitYear :=
      fun literal hl => hyears literal (List.mem_append_right _ hl)
    obtain ⟨ls, hderives, hbalanced, hlexes⟩ := ih (hwords.subset (by simp)) hleft
    obtain ⟨ls', hderives', hbalanced', hlexes'⟩ := ih' (hwords.subset (by simp)) hright
    have hword : IsWord c.word.toList := hwords c.word (by simp)
    refine ⟨_, .join hderives hderives', hbalanced.append (.skip (by simp) (by simp) hbalanced'), ?_⟩
    rw [toList_text_join]
    exact hlexes.spaced ((lexes_string hword).spaced hlexes')

/-! ## Equality by value -/

theorem same_self_of_denotes {k : TokenKind} {literal : Literal} (h : Denotes k literal) :
    literal.same literal = true := by
  cases h with
  | null | true | false | string | dateTime | dateTimeOffset => simp [Literal.same]
  | number hread =>
    cases numberOf_of_readNumber? hread with
    | integer | long | decimal => simp [Literal.same]
    | double n | single n => simp [Literal.same, Double.compare?_self (Double.isNaN_ofNumeral n)]

theorem same_self_of_derives {level : Level} {ks : List TokenKind} {t : Filter} (h : Derives level ks t) :
    t.same t = true := by
  induction h with
  | compare _ _ denotes _ | startsWith _ denotes | substringOf _ denotes =>
    simp [same, same_self_of_denotes denotes]
  | group _ ih => simpa [same] using ih
  | single _ ih => exact ih
  | join _ _ ih ih' => simp [same, ih, ih']

/-! ## The round trip -/

theorem dropsUnclosed_subset {ks kept : List TokenKind} (h : DropsUnclosed ks kept) : kept ⊆ ks := by
  induction h with
  | nil => exact List.Subset.refl _
  | drop _ _ ih => exact List.subset_cons_of_subset _ ih
  | keep _ _ ih => exact List.cons_subset_cons _ ih

/-- What a text is read as has a derivation from words that the text can be cut into. -/
theorem exists_sentence_of_parse {text : String} {t : Filter} (h : parse text = .ok t) :
    ∃ ks, Sentence ks t ∧ WordsFit ks := by
  simp only [parse, bind_eq_ok, matchParens_eq_ok_iff, ofTokens_eq_ok_iff] at h
  obtain ⟨ts, hts, _, ⟨_, rfl⟩, hsentence⟩ := h
  have hwords : WordsFit (kinds ts) := fun word hword => isWord_of_mem_tokensFrom hts hword
  exact ⟨_, hsentence, hwords.subset (dropsUnclosed_subset (dropsUnclosed_keepClosed ts))⟩

theorem parse_of_balanced {text : String} {ks : List TokenKind} {t : Filter} (hlexes : Lexes text.toList ks)
    (hbalanced : Balanced ks) (hsentence : Sentence ks t) : parse text = .ok t := by
  obtain ⟨ts, hts, rfl⟩ := hlexes.tokens
  have hopened : AllOpened (kinds ts) := (balanced_iff.mp hbalanced).1
  simp only [parse, bind_eq_ok, matchParens_eq_ok_iff, ofTokens_eq_ok_iff]
  exact ⟨ts, hts, ts, ⟨hopened, (keepClosed_of_balanced hbalanced).symm⟩, hsentence⟩

/-- The text of a filter is read as that filter again, if its points in time lie in the years 0 to 9999. -/
theorem parse_text {text : String} {t : Filter} (h : parse text = .ok t)
    (hyears : ∀ literal ∈ t.operands, literal.FourDigitYear) : parse t.text = .ok t ∧ t.same t = true := by
  obtain ⟨ks, hsentence, hwords⟩ := exists_sentence_of_parse h
  obtain ⟨ks', hderives, hbalanced, hlexes⟩ := prints_of_derives hsentence.derives hwords hyears
  exact ⟨parse_of_balanced hlexes hbalanced ⟨hderives, hsentence.nesting, hsentence.connectives⟩,
    same_self_of_derives hderives⟩

theorem parse_text_unclosed_group :
    ∃ t, parse "((a eq \x27it\x27\x27s\x27 or b le datetime\x271970-01-01T00:00\x27)" = .ok t ∧
      (∀ literal ∈ t.operands, literal.FourDigitYear) ∧ parse t.text = .ok t ∧ t.same t = true := by
  let t : Filter := .group (.join .or (.compare "a" .eq (.string "it\x27s")) (.compare "b" .le (.dateTime 0)))
  have hparse : parse "((a eq \x27it\x27\x27s\x27 or b le datetime\x271970-01-01T00:00\x27)" = .ok t := by
    decide +kernel
  have hyears : ∀ literal ∈ t.operands, literal.FourDigitYear := by
    intro literal hmem
    rcases List.mem_pair.mp hmem with rfl | rfl
    · trivial
    · exact ⟨by decide, by decide⟩
  exact ⟨t, hparse, hyears, parse_text hparse hyears⟩

end EntityStore.Filter
