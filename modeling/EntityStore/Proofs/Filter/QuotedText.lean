import EntityStore.Proofs.Filter.Printing

/-!
# String operands stay within their quotes

The text of a string operand is one token, whatever characters the string has and whatever stands after the text. Main
statement: `tokensFrom_text_and_parse_equalities`.
-/
namespace EntityStore.Filter

open EntityStore.Text

variable {cs body rest : List Char} {size : Nat}

/-- The size of a string that was read counts the octets up to and including its closing quote. -/
theorem byteLength_of_readQuoted (h : readQuoted cs = some (body, size, rest)) :
    ∃ front, cs = front ++ rest ∧ byteLength front = size := by
  fun_induction readQuoted cs generalizing body size rest with
  | case1 => cases h
  | case2 cs ih =>
    obtain ⟨⟨b, n, r⟩, hread, heq⟩ := Option.map_eq_some_iff.mp h
    cases heq
    obtain ⟨front, rfl, rfl⟩ := ih hread
    have hquote : ('\x27').utf8Size = 1 := by decide
    exact ⟨'\x27' :: '\x27' :: front, rfl, by simp only [byteLength_cons, hquote]; omega⟩
  | case3 cs hend =>
    cases h
    exact ⟨['\x27'], rfl, by decide⟩
  | case4 c cs ih =>
    obtain ⟨⟨b, n, r⟩, hread, heq⟩ := Option.map_eq_some_iff.mp h
    cases heq
    obtain ⟨front, rfl, rfl⟩ := ih hread
    have hbackslash : ('\\').utf8Size = 1 := by decide
    exact ⟨'\\' :: c :: front, rfl, by simp only [byteLength_cons, hbackslash]; omega⟩
  | case5 c cs hdoubled hquote hescape ih =>
    obtain ⟨⟨b, n, r⟩, hread, heq⟩ := Option.map_eq_some_iff.mp h
    cases heq
    obtain ⟨front, rfl, rfl⟩ := ih hread
    exact ⟨c :: front, rfl, by simp only [byteLength_cons]; omega⟩

/-- Text that stands for a body between quotes is read up to the quote after it, and no further. -/
theorem Quotes.readQuoted_eq (h : Quotes cs body) (hrest : rest.head? ≠ some quote) :
    readQuoted (cs ++ quote :: rest) = some (body, byteLength cs + 1, rest) := by
  obtain ⟨size, hread⟩ := h rest hrest
  obtain ⟨front, hcs, hsize⟩ := byteLength_of_readQuoted hread
  have happend : (cs ++ [quote]) ++ rest = front ++ rest := by simpa using hcs
  have hfront : cs ++ [quote] = front := List.append_cancel_right happend
  have hquote : quote.utf8Size = 1 := by decide
  have hlength : byteLength cs + 1 = size := by
    rw [← hsize, ← hfront]
    simp [hquote]
  rw [hread, hlength]

theorem readQuoted_plain_append {plain : List Char} (hplain : ∀ c ∈ plain, c ≠ quote ∧ c ≠ '\\')
    (h : readQuoted cs = none) : readQuoted (plain ++ cs) = none := by
  induction plain with
  | nil => exact h
  | cons c plain ih =>
    obtain ⟨hquote, hbackslash⟩ := hplain c (by simp)
    rw [List.cons_append, readQuoted_plain hquote hbackslash, ih fun d hd => hplain d (by simp [hd])]
    rfl

theorem readQuoted_escapeChar (c : Char) (h : readQuoted cs = none) :
    readQuoted (Literal.doubleQuotes (escapeChar c) ++ cs) = none := by
  unfold escapeChar
  split
  · simp [Literal.doubleQuotes, readQuoted, h]
  rename_i hbackslash
  split
  · simp [Literal.doubleQuotes, readQuoted, h]
  split
  · have hdigits := hexDigits_plain 4 c.toNat
    have hsame : Literal.doubleQuotes (hexDigits 4 c.toNat) = hexDigits 4 c.toNat :=
      doubleQuotes_of_plain fun d hd => (hdigits d hd).1
    have hread := readQuoted_plain_append hdigits h
    rw [← hsame] at hread
    simpa [Literal.doubleQuotes, readQuoted] using hread
  · by_cases hquote : c = quote
    · simp [hquote, quote, Literal.doubleQuotes, readQuoted, h]
    · have hsame : Literal.doubleQuotes [c] = [c] := doubleQuotes_of_plain (by simpa using hquote)
      rw [hsame, List.singleton_append, readQuoted_plain hquote (by simpa using hbackslash), h]
      rfl

/-- The characters of a string, as they are written, do not close it. -/
theorem readQuoted_escape (cs : List Char) : readQuoted (Literal.doubleQuotes (escape cs)) = none := by
  induction cs with
  | nil => rfl
  | cons c cs ih =>
    rw [escape] at ih
    rw [escape, List.flatMap_cons, doubleQuotes_append]
    exact readQuoted_escapeChar c ih

/-- The text of a string operand is cut off whole as a single token, which ends with the text. -/
theorem tokensFrom_text_string (s : String) (hrest : rest.head? ≠ some quote) (position : Nat) :
    tokensFrom position ((Literal.string s).text.toList ++ rest) =
      (tokensFrom (position + byteLength (Literal.string s).text.toList) rest).map
        (⟨.quoted (.ofList (escape s.toList)), position⟩ :: ·) := by
  have hread := (quotes_escape s.toList).readQuoted_eq hrest
  have hquote : quote.utf8Size = 1 := by decide
  have hlength : byteLength (Literal.string s).text.toList =
      1 + (byteLength (Literal.doubleQuotes (escape s.toList)) + 1) := by
    simp [toList_text_string, hquote]
  rw [hlength, ← Nat.add_assoc, toList_text_string, List.cons_append, List.append_assoc, List.singleton_append]
  exact tokensFrom_quoted hread position

theorem denotes_escape (s : String) : Denotes (.quoted (.ofList (escape s.toList))) (.string s) := by
  have hdecoded : unescape? (String.ofList (escape s.toList)).toList = some s.toList := by
    rw [String.toList_ofList, unescape_escape]
  simpa using Denotes.string hdecoded

/-- The text of a tree of the grammar is read as that tree. -/
theorem parse_text_of_sentence {ks : List TokenKind} {t : Filter} (h : Sentence ks t) (hwords : WordsFit ks)
    (hyears : ∀ literal ∈ t.operands, literal.FourDigitYear) : parse t.text = .ok t := by
  obtain ⟨ls, hderives, hbalanced, hlexes⟩ := prints_of_derives h.derives hwords hyears
  exact parse_of_balanced hlexes hbalanced ⟨hderives, h.nesting, h.connectives⟩

theorem isWordChar_of_isAlphanum {c : Char} (h : c.isAlphanum = true) : isWordChar c = true := by
  have hletter : ((decide (65 ≤ c.val ∧ c.val ≤ 90) || decide (97 ≤ c.val) && decide (c.val ≤ 122)) ||
      decide (48 ≤ c.val) && decide (c.val ≤ 57)) = true := h
  have hrange : (65 ≤ c.toNat ∧ c.toNat ≤ 90 ∨ 97 ≤ c.toNat ∧ c.toNat ≤ 122) ∨ 48 ≤ c.toNat ∧ c.toNat ≤ 57 := by
    simp only [Bool.or_eq_true, Bool.and_eq_true, decide_eq_true_eq, UInt32.le_iff_toNat_le] at hletter
    exact hletter
  have hblank : isBlank c = false := by
    simp only [isBlank, Bool.or_eq_false_iff, Bool.and_eq_false_iff, decide_eq_false_iff_not, beq_eq_false_iff_ne]
    omega
  have hother : ∀ d : Char, d.isAlphanum = false → c ≠ d := by
    intro d hd heq
    rw [heq, hd] at h
    cases h
  simp [isWordChar, hblank, hother, quote]

theorem IsPropertyName.isWord {word : String} (h : IsPropertyName word) : IsWord word.toList := by
  have hvalid := h.valid
  simp only [Name.isValid, Bool.and_eq_true, Bool.not_eq_true', List.isEmpty_eq_false_iff, List.all_eq_true,
    Bool.or_eq_true, beq_iff_eq] at hvalid
  obtain ⟨hne, hchars⟩ := hvalid
  refine ⟨hne, fun c hc => ?_⟩
  rcases hchars c hc with (halphanum | rfl) | rfl
  · exact isWordChar_of_isAlphanum halphanum
  · decide
  · decide

variable {a b : String}

theorem sentence_equalities (ha : IsPropertyName a) (ha' : a ∉ operatorWords) (hb : IsPropertyName b)
    (hb' : b ∉ operatorWords) (s u : String) :
    Sentence [.word a, .word "eq", .quoted (.ofList (escape s.toList)), .word "and", .word b, .word "eq",
      .quoted (.ofList (escape u.toList))] (.join .and (.compare a .eq (.string s)) (.compare b .eq (.string u))) := by
  have hleft : Derives (.below .and) _ (.compare a .eq (.string s)) :=
    .compare ha ha' (denotes_escape s) (by simp [Comparator.isOrdering])
  have hright : Derives (.below .and) _ (.compare b .eq (.string u)) :=
    .compare hb hb' (denotes_escape u) (by simp [Comparator.isOrdering])
  have hchain : Derives (.below .or) _ _ := .join (.single hleft) hright
  exact ⟨.single hchain, by simp [nesting], by simp [connectives]⟩

/-- Two properties, each compared with a string, are read as they were written. -/
theorem parse_equalities (ha : IsPropertyName a) (ha' : a ∉ operatorWords) (hb : IsPropertyName b)
    (hb' : b ∉ operatorWords) (s u : String) :
    parse (a ++ " eq " ++ (Literal.string s).text ++ " and " ++ b ++ " eq " ++ (Literal.string u).text) =
      .ok (.join .and (.compare a .eq (.string s)) (.compare b .eq (.string u))) := by
  have hwords : WordsFit [.word a, .word "eq", .quoted (.ofList (escape s.toList)), .word "and", .word b, .word "eq",
      .quoted (.ofList (escape u.toList))] := by
    intro word hword
    simp only [List.mem_cons, TokenKind.word.injEq, reduceCtorEq, List.not_mem_nil, false_or, or_false] at hword
    rcases hword with rfl | rfl | rfl | rfl | rfl
    · exact ha.isWord
    · exact ⟨by decide, List.all_eq_true.mp (by decide)⟩
    · exact ⟨by decide, List.all_eq_true.mp (by decide)⟩
    · exact hb.isWord
    · exact ⟨by decide, List.all_eq_true.mp (by decide)⟩
  have htext : a ++ " eq " ++ (Literal.string s).text ++ " and " ++ b ++ " eq " ++ (Literal.string u).text =
      (Filter.join .and (.compare a .eq (.string s)) (.compare b .eq (.string u))).text := by
    have heq : " eq ".toList = ' ' :: ("eq".toList ++ [' ']) := rfl
    have hand : " and ".toList = ' ' :: ("and".toList ++ [' ']) := rfl
    apply String.toList_injective
    simp [toList_text_join, toList_text_compare, heq, hand, Connective.word, Comparator.word]
  rw [htext]
  exact parse_text_of_sentence (sentence_equalities ha ha' hb hb' s u) hwords
    (by simp [operands, Literal.FourDigitYear])

/-- A string operand is written as one token. The token ends with the text of the operand unless a further quote
follows, no character of the string closes it, and it decodes to the string; so a string reaches nothing that stands
beside it in a filter. -/
theorem tokensFrom_text_and_parse_equalities (s u : String) :
    (∀ position rest, rest.head? ≠ some quote →
      tokensFrom position ((Literal.string s).text.toList ++ rest) =
        (tokensFrom (position + byteLength (Literal.string s).text.toList) rest).map
          (⟨.quoted (.ofList (escape s.toList)), position⟩ :: ·)) ∧
    readQuoted (Literal.doubleQuotes (escape s.toList)) = none ∧
    unescape? (escape s.toList) = some s.toList ∧
    parse ("name eq " ++ (Literal.string s).text ++ " and tag eq " ++ (Literal.string u).text) =
      .ok (.join .and (.compare "name" .eq (.string s)) (.compare "tag" .eq (.string u))) := by
  have hname : IsPropertyName "name" := ⟨by decide, by decide, by decide, by decide⟩
  have htag : IsPropertyName "tag" := ⟨by decide, by decide, by decide, by decide⟩
  have hparse := parse_equalities hname (by decide) htag (by decide) s u
  have hjoin : ∀ v : String, v ++ " and " ++ "tag" ++ " eq " = v ++ " and tag eq " := by
    intro v
    simp only [String.append_assoc]
    rfl
  rw [hjoin] at hparse
  exact ⟨fun position rest hrest => tokensFrom_text_string s hrest position, readQuoted_escape s.toList,
    unescape_escape s.toList, hparse⟩

/-- A string that reads like the end of an operand and a further comparison, with a backslash at the end, before a
parenthesis. -/
theorem tokensFrom_text_and_parse_equalities_injection :
    [')'].head? ≠ some quote ∧
    tokensFrom 3 ((Literal.string "x\x27 or tag eq \x27\\").text.toList ++ [')']) =
      .ok [⟨.quoted "x\x27 or tag eq \x27\\\\", 3⟩, ⟨.closeParen, 23⟩] ∧
    parse ("name eq " ++ (Literal.string "x\x27 or tag eq \x27\\").text ++ " and tag eq " ++
        (Literal.string "\x27").text) =
      .ok (.join .and (.compare "name" .eq (.string "x\x27 or tag eq \x27\\"))
        (.compare "tag" .eq (.string "\x27"))) := by
  obtain ⟨htoken, -, -, hparse⟩ := tokensFrom_text_and_parse_equalities "x\x27 or tag eq \x27\\" "\x27"
  have hquote : [')'].head? ≠ some quote := by decide
  have hclose : ∀ position, tokensFrom position [')'] = .ok [⟨.closeParen, position⟩] := by
    intro position
    have hmark : markKind? ')' = some .closeParen := rfl
    rw [tokensFrom_mark hmark, tokensFrom_nil]
    rfl
  refine ⟨hquote, ?_, hparse⟩
  rw [htoken 3 [')'] hquote, hclose]
  decide

end EntityStore.Filter
