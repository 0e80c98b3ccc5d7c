import EntityStore.Proofs.Except
import EntityStore.Proofs.Filter.Parentheses
import EntityStore.Filter.Literal

/-!
# Cutting texts into tokens

What a piece of text is cut into, whatever follows it. A word runs up to the next character that forms no words,
so a piece may end with a word only before such a character. Main statements: the composition lemmas of `Lexes`.
-/
namespace EntityStore.Filter

open EntityStore.Text

/-- Characters that form a word, at least one. -/
structure IsWord (cs : List Char) : Prop where
  nonempty : cs ≠ []
  chars : ∀ c ∈ cs, isWordChar c = true

/-- What follows a word neither goes on with it nor makes it a tag. -/
def Ends (rest : List Char) : Prop := ∀ c, rest.head? = some c → isWordChar c = false ∧ c ≠ quote

/-- Between quotes, the text stands for this body. -/
def Quotes (cs body : List Char) : Prop :=
  ∀ rest, rest.head? ≠ some quote → ∃ size, readQuoted (cs ++ quote :: rest) = some (body, size, rest)

/-- Before anything that ends a word, the text is cut into tokens of these kinds. -/
def Lexes (cs : List Char) (ks : List TokenKind) : Prop :=
  ∀ position rest, Ends rest → ∃ position' us, kinds us = ks ∧
    tokensFrom position (cs ++ rest) = (tokensFrom position' rest).map (us ++ ·)

variable {cs rest : List Char} {ks : List TokenKind}

/-! ## Quoted strings -/

theorem quotes_nil : Quotes [] [] := by
  intro rest hrest
  refine ⟨1, ?_⟩
  cases rest with
  | nil => rfl
  | cons c rest =>
    have hc : c ≠ '\x27' := by simpa [quote] using hrest
    simp [quote, readQuoted, hc]

theorem quotes_quote {body : List Char} (h : Quotes cs body) :
    Quotes (quote :: quote :: cs) (quote :: body) := by
  intro rest hrest
  obtain ⟨size, hread⟩ := h rest hrest
  refine ⟨size + 2, ?_⟩
  simp only [quote] at hread
  simp [quote, readQuoted, hread]

theorem quotes_backslash {body : List Char} (h : Quotes cs body) (c : Char) :
    Quotes ('\\' :: c :: cs) ('\\' :: c :: body) := by
  intro rest hrest
  obtain ⟨size, hread⟩ := h rest hrest
  refine ⟨size + 1 + c.utf8Size, ?_⟩
  simp [readQuoted, hread]

theorem readQuoted_plain {c : Char} (hquote : c ≠ quote) (hbackslash : c ≠ '\\') (cs : List Char) :
    readQuoted (c :: cs) =
      (readQuoted cs).map fun (body, size, rest) => (c :: body, size + c.utf8Size, rest) := by
  rw [readQuoted.eq_def]
  split <;> simp_all [quote]

theorem quotes_plain {body : List Char} (h : Quotes cs body) {c : Char} (hquote : c ≠ quote)
    (hbackslash : c ≠ '\\') : Quotes (c :: cs) (c :: body) := by
  intro rest hrest
  obtain ⟨size, hread⟩ := h rest hrest
  refine ⟨size + c.utf8Size, ?_⟩
  rw [List.cons_append, readQuoted_plain hquote hbackslash, hread]
  rfl

theorem quotes_plain_append {body plain : List Char} (h : Quotes cs body)
    (hplain : ∀ c ∈ plain, c ≠ quote ∧ c ≠ '\\') : Quotes (plain ++ cs) (plain ++ body) := by
  induction plain with
  | nil => exact h
  | cons c plain ih =>
    obtain ⟨hquote, hbackslash⟩ := hplain c (by simp)
    exact quotes_plain (ih fun d hd => hplain d (by simp [hd])) hquote hbackslash

theorem quotes_of_plain (hplain : ∀ c ∈ cs, c ≠ quote ∧ c ≠ '\\') : Quotes cs cs := by
  simpa using quotes_plain_append quotes_nil hplain

theorem doubleQuotes_append (a b : List Char) :
    Literal.doubleQuotes (a ++ b) = Literal.doubleQuotes a ++ Literal.doubleQuotes b :=
  List.flatMap_append

theorem doubleQuotes_of_plain (hplain : ∀ c ∈ cs, c ≠ quote) : Literal.doubleQuotes cs = cs := by
  induction cs with
  | nil => rfl
  | cons c cs ih =>
    have hc : c ≠ '\x27' := hplain c (by simp)
    have hrest := ih fun d hd => hplain d (by simp [hd])
    simp only [Literal.doubleQuotes, beq_iff_eq] at hrest ⊢
    rw [List.flatMap_cons, if_neg hc, hrest, List.singleton_append]

theorem hexDigit_plain (n : Nat) : hexDigit (n % 16) ≠ quote ∧ hexDigit (n % 16) ≠ '\\' := by
  have h : ∀ m : Fin 16, hexDigit m ≠ quote ∧ hexDigit m ≠ '\\' := by decide
  exact h ⟨n % 16, Nat.mod_lt n (by decide)⟩

theorem hexDigits_plain (count n : Nat) : ∀ c ∈ hexDigits count n, c ≠ quote ∧ c ≠ '\\' := by
  induction count generalizing n with
  | zero => simp [hexDigits]
  | succ count ih =>
    intro c hc
    rw [hexDigits, List.mem_append, List.mem_singleton] at hc
    rcases hc with hc | rfl
    · exact ih (n / 16) c hc
    · exact hexDigit_plain n

theorem quotes_escapeChar {body : List Char} (h : Quotes cs body) (c : Char) :
    Quotes (Literal.doubleQuotes (escapeChar c) ++ cs) (escapeChar c ++ body) := by
  unfold escapeChar
  split
  · exact quotes_backslash h '\\'
  rename_i hbackslash
  split
  · exact quotes_backslash h '"'
  split
  · -- a backslash takes the letter with it, and the digits are plain
    have hdigits := hexDigits_plain 4 c.toNat
    have hsame : Literal.doubleQuotes ('\\' :: 'u' :: hexDigits 4 c.toNat) = '\\' :: 'u' :: hexDigits 4 c.toNat := by
      refine doubleQuotes_of_plain ?_
      simp only [List.mem_cons, forall_eq_or_imp]
      exact ⟨by decide, by decide, fun d hd => (hdigits d hd).1⟩
    rw [hsame]
    exact quotes_backslash (quotes_plain_append h hdigits) 'u'
  · by_cases hquote : c = quote
    · subst hquote
      exact quotes_quote h
    · have hsame : Literal.doubleQuotes [c] = [c] := doubleQuotes_of_plain (by simpa using hquote)
      rw [hsame]
      exact quotes_plain h hquote (by simpa using hbackslash)

/-- The text of a string operand is read as its transport form. -/
theorem quotes_escape (cs : List Char) : Quotes (Literal.doubleQuotes (escape cs)) (escape cs) := by
  induction cs with
  | nil => exact quotes_nil
  | cons c cs ih =>
    simp only [escape, List.flatMap_cons, doubleQuotes_append] at ih ⊢
    exact quotes_escapeChar ih c

/-! ## The first token -/

theorem isWordChar_iff {c : Char} :
    isWordChar c = true ↔ isBlank c = false ∧ markKind? c = none ∧ c ≠ quote := by
  by_cases hopen : c = '('
  · simp [hopen, isWordChar, markKind?]
  by_cases hclose : c = ')'
  · simp [hclose, isWordChar, markKind?]
  by_cases hcomma : c = ','
  · simp [hcomma, isWordChar, markKind?]
  simp [isWordChar, markKind?, hopen, hclose, hcomma]

theorem markKind?_cases {c : Char} {k : TokenKind} (h : markKind? c = some k) :
    (c = '(' ∧ k = .openParen) ∨ (c = ')' ∧ k = .closeParen) ∨ (c = ',' ∧ k = .comma) := by
  unfold markKind? at h
  split_ifs at h <;> simp_all

theorem tokensFrom_nil (position : Nat) : tokensFrom position [] = .ok [] := by
  rw [tokensFrom.eq_def]

theorem tokensFrom_blank {c : Char} (h : isBlank c = true) (position : Nat) :
    tokensFrom position (c :: rest) = tokensFrom (position + c.utf8Size) rest := by
  rw [tokensFrom.eq_def]
  simp [h]

theorem tokensFrom_mark {c : Char} {k : TokenKind} (h : markKind? c = some k) (position : Nat) :
    tokensFrom position (c :: rest) =
      (tokensFrom (position + c.utf8Size) rest).map (⟨k, position⟩ :: ·) := by
  have hblank : isBlank c = false := by
    rcases markKind?_cases h with ⟨rfl, -⟩ | ⟨rfl, -⟩ | ⟨rfl, -⟩ <;> decide
  rw [tokensFrom.eq_def]
  simp [hblank, h]

/-- A quote begins a string, which has to end. -/
theorem tokensFrom_quote (position : Nat) (rest : List Char) : tokensFrom position (quote :: rest) =
    match readQuoted rest with
    | none => .error (.malformed position .unterminatedString)
    | some (body, size, rest') =>
      (tokensFrom (position + 1 + size) rest').map (⟨.quoted (.ofList body), position⟩ :: ·) := by
  have hblank : isBlank quote = false := by decide
  have hmark : markKind? quote = none := by decide
  rw [tokensFrom.eq_def]
  simp only [hblank, hmark, beq_self_eq_true, if_true, Bool.false_eq_true, if_false]
  split <;> rename_i hread <;> rw [hread]

theorem tokensFrom_open (h : readQuoted rest = none) (position : Nat) :
    tokensFrom position (quote :: rest) = .error (.malformed position .unterminatedString) := by
  rw [tokensFrom_quote, h]

theorem tokensFrom_quoted {body rest' : List Char} {size : Nat} (h : readQuoted rest = some (body, size, rest'))
    (position : Nat) :
    tokensFrom position (quote :: rest) =
      (tokensFrom (position + 1 + size) rest').map (⟨.quoted (.ofList body), position⟩ :: ·) := by
  rw [tokensFrom_quote, h]

theorem span_append {p : Char → Bool} {front : List Char} (hfront : ∀ c ∈ front, p c = true)
    (hrest : ∀ c, rest.head? = some c → p c = false) :
    (front ++ rest).takeWhile p = front ∧ (front ++ rest).dropWhile p = rest := by
  have hend : rest.takeWhile p = [] ∧ rest.dropWhile p = rest := by
    cases rest with
    | nil => exact ⟨rfl, rfl⟩
    | cons c rest =>
      have hc := hrest c rfl
      simp [hc]
  rw [List.takeWhile_append_of_pos hfront, List.dropWhile_append_of_pos hfront, hend.1, hend.2]
  exact ⟨List.append_nil _, rfl⟩

theorem tokensFrom_word {word : List Char} (hword : IsWord word) (hrest : Ends rest) (position : Nat) :
    tokensFrom position (word ++ rest) =
      (tokensFrom (position + byteLength word) rest).map (⟨.word (.ofList word), position⟩ :: ·) := by
  obtain ⟨hne, hchars⟩ := hword
  cases word with
  | nil => contradiction
  | cons c word =>
    obtain ⟨hblank, hmark, hquote⟩ := isWordChar_iff.mp (hchars c (by simp))
    have hword : ∀ d ∈ word, isWordChar d = true := fun d hd => hchars d (by simp [hd])
    obtain ⟨htake, hdrop⟩ := span_append hword fun d hd => (hrest d hd).1
    rw [List.cons_append, tokensFrom.eq_def]
    simp only [hblank, hmark, htake, beq_iff_eq, hquote, if_false, Bool.false_eq_true]
    split
    · rename_i heq
      rw [hdrop] at heq
      exact absurd rfl (hrest '\x27' (by rw [heq]; rfl)).2
    · rw [hdrop]

/-- A quote directly after a word begins a string too, which has to end. -/
theorem tokensFrom_word_quote {tag : List Char} (htag : IsWord tag) (position : Nat) (rest : List Char) :
    tokensFrom position (tag ++ quote :: rest) =
      match readQuoted rest with
      | none => .error (.malformed (position + byteLength tag) .unterminatedString)
      | some (body, size, rest') =>
        (tokensFrom (position + byteLength tag + 1 + size) rest').map
          (⟨.tagged (.ofList tag) (.ofList body), position⟩ :: ·) := by
  obtain ⟨hne, hchars⟩ := htag
  cases tag with
  | nil => contradiction
  | cons c tag =>
    obtain ⟨hblank, hmark, hquote⟩ := isWordChar_iff.mp (hchars c (by simp))
    have htag : ∀ d ∈ tag, isWordChar d = true := fun d hd => hchars d (by simp [hd])
    have hend : ∀ d, (quote :: rest).head? = some d → isWordChar d = false := by
      rintro d ⟨⟩
      decide
    obtain ⟨htake, hdrop⟩ := span_append htag hend
    rw [List.cons_append, tokensFrom.eq_def]
    simp only [hblank, hmark, htake, beq_iff_eq, hquote, if_false, Bool.false_eq_true]
    split
    · rename_i heq
      rw [hdrop] at heq
      cases heq
      split <;> rename_i hread <;> rw [hread]
    · rename_i hother
      exact absurd hdrop (hother rest)

theorem tokensFrom_taggedOpen {tag : List Char} (htag : IsWord tag) (h : readQuoted rest = none) (position : Nat) :
    tokensFrom position (tag ++ quote :: rest) =
      .error (.malformed (position + byteLength tag) .unterminatedString) := by
  rw [tokensFrom_word_quote htag, h]

theorem tokensFrom_tagged {tag body rest' : List Char} {size : Nat} (htag : IsWord tag)
    (h : readQuoted rest = some (body, size, rest')) (position : Nat) :
    tokensFrom position (tag ++ quote :: rest) =
      (tokensFrom (position + byteLength tag + 1 + size) rest').map
        (⟨.tagged (.ofList tag) (.ofList body), position⟩ :: ·) := by
  rw [tokensFrom_word_quote htag, h]

/-! ## Pieces of text -/

theorem ends_nil : Ends [] := by
  intro c hc
  cases hc

theorem ends_cons {c : Char} (h : isWordChar c = false) (hquote : c ≠ quote) (rest : List Char) :
    Ends (c :: rest) := by
  rintro d ⟨⟩
  exact ⟨h, hquote⟩

theorem lexes_nil : Lexes [] [] := by
  intro position rest _
  refine ⟨position, [], rfl, ?_⟩
  simp only [List.nil_append]
  cases tokensFrom position rest <;> rfl

/-- A first token, cut off before a piece of text whatever stands after that. -/
theorem Lexes.cons {k : TokenKind} (h : Lexes rest ks) (hfirst : ∀ position more, Ends more → ∃ position',
    tokensFrom position (cs ++ more) = (tokensFrom position' (rest ++ more)).map (⟨k, position⟩ :: ·)) :
    Lexes cs (k :: ks) := by
  intro position more hmore
  obtain ⟨middle, hcut⟩ := hfirst position more hmore
  obtain ⟨position', us, rfl, heq⟩ := h middle more hmore
  refine ⟨position', ⟨k, position⟩ :: us, rfl, ?_⟩
  rw [hcut, heq]
  cases tokensFrom position' more <;> rfl

/-- A single token, cut off whatever stands after it. -/
theorem Lexes.of_first {k : TokenKind} (h : ∀ position rest, Ends rest → ∃ position',
    tokensFrom position (cs ++ rest) = (tokensFrom position' rest).map (⟨k, position⟩ :: ·)) : Lexes cs [k] :=
  .cons lexes_nil h

theorem lexes_word {word : List Char} (hword : IsWord word) : Lexes word [.word (.ofList word)] :=
  .of_first fun position _ hrest => ⟨_, tokensFrom_word hword hrest position⟩

theorem lexes_quoted {body : List Char} (h : Quotes cs body) :
    Lexes (quote :: (cs ++ [quote])) [.quoted (.ofList body)] := by
  refine .of_first fun position rest hrest => ?_
  obtain ⟨size, hread⟩ := h rest fun hquote => (hrest quote hquote).2 rfl
  refine ⟨position + 1 + size, ?_⟩
  rw [List.cons_append, List.append_assoc, List.singleton_append]
  exact tokensFrom_quoted hread position

theorem lexes_tagged {tag body : List Char} (htag : IsWord tag) (h : Quotes cs body) :
    Lexes (tag ++ quote :: (cs ++ [quote])) [.tagged (.ofList tag) (.ofList body)] := by
  refine .of_first fun position rest hrest => ?_
  obtain ⟨size, hread⟩ := h rest fun hquote => (hrest quote hquote).2 rfl
  refine ⟨position + byteLength tag + 1 + size, ?_⟩
  rw [List.append_assoc, List.cons_append, List.append_assoc, List.singleton_append]
  exact tokensFrom_tagged htag hread position

theorem Lexes.blank {c : Char} (h : Lexes cs ks) (hblank : isBlank c = true) : Lexes (c :: cs) ks := by
  intro position rest hrest
  obtain ⟨position', us, hkinds, heq⟩ := h (position + c.utf8Size) rest hrest
  refine ⟨position', us, hkinds, ?_⟩
  rw [List.cons_append, tokensFrom_blank hblank, heq]

theorem Lexes.mark {c : Char} {k : TokenKind} (h : Lexes cs ks) (hmark : markKind? c = some k) :
    Lexes (c :: cs) (k :: ks) :=
  .cons h fun position _ _ => ⟨_, tokensFrom_mark hmark position⟩

/-- A piece of text before another that does not go on with its last word. -/
theorem Lexes.before {c : Char} {ls : List TokenKind} (h : Lexes cs ks) (h' : Lexes (c :: rest) ls)
    (hc : isWordChar c = false) (hquote : c ≠ quote) : Lexes (cs ++ c :: rest) (ks ++ ls) := by
  intro position more hmore
  obtain ⟨middle, us, rfl, heq⟩ := h position (c :: rest ++ more) (ends_cons hc hquote _)
  obtain ⟨position', vs, rfl, heq'⟩ := h' middle more hmore
  refine ⟨position', us ++ vs, kinds_append us vs, ?_⟩
  rw [List.append_assoc, heq, heq']
  cases tokensFrom position' more <;> simp [Except.map]

/-- A whole text is cut into the tokens of its only piece. -/
theorem Lexes.tokens {text : String} (h : Lexes text.toList ks) : ∃ ts, tokens text = .ok ts ∧ kinds ts = ks := by
  obtain ⟨position', us, hkinds, heq⟩ := h 0 [] ends_nil
  refine ⟨us, ?_, hkinds⟩
  rw [List.append_nil] at heq
  rw [Filter.tokens, heq, tokensFrom_nil]
  simp [Except.map]

/-! ## Texts as pieces -/

/-- A string that a quote closes is closed by that quote whatever follows, but for a further quote. -/
theorem readQuoted_append {body more : List Char} {size : Nat} (h : readQuoted cs = some (body, size, rest))
    (hmore : more.head? ≠ some quote) : readQuoted (cs ++ more) = some (body, size, rest ++ more) := by
  fun_induction readQuoted cs generalizing body size rest with
  | case1 => cases h
  | case2 cs ih =>
    obtain ⟨⟨b, n, r⟩, hread, heq⟩ := Option.map_eq_some_iff.mp h
    cases heq
    rw [List.cons_append, List.cons_append, readQuoted, ih hread]
    rfl
  | case3 cs hend =>
    cases h
    rw [List.cons_append, readQuoted.eq_def]
    cases cs with
    | nil => cases more <;> simp_all [quote]
    | cons c cs => simp_all
  | case4 c cs ih =>
    obtain ⟨⟨b, n, r⟩, hread, heq⟩ := Option.map_eq_some_iff.mp h
    cases heq
    rw [List.cons_append, List.cons_append, readQuoted, ih hread]
    rfl
  | case5 c cs hdoubled hquote hescape ih =>
    obtain ⟨⟨b, n, r⟩, hread, heq⟩ := Option.map_eq_some_iff.mp h
    cases heq
    -- a backslash at the very end leaves the string open
    obtain ⟨d, ds, rfl⟩ : ∃ d ds, cs = d :: ds := by
      cases cs with
      | nil => cases hread
      | cons d ds => exact ⟨d, ds, rfl⟩
    have hbackslash : c ≠ '\\' := fun hc => hescape d ds hc rfl
    rw [List.cons_append, readQuoted_plain hquote hbackslash, ih hread]
    rfl

theorem isWord_first {c : Char} (hblank : isBlank c = false) (hmark : markKind? c = none) (hquote : c ≠ quote)
    (rest : List Char) : IsWord (c :: rest.takeWhile isWordChar) where
  nonempty := List.cons_ne_nil _ _
  chars := by
    simp only [List.mem_cons, forall_eq_or_imp]
    exact ⟨isWordChar_iff.mpr ⟨hblank, hmark, hquote⟩, List.all_eq_true.mp List.all_takeWhile⟩

/-- A text is cut off piece by piece: a blank, a mark, a string, or a word, which a string may follow directly. A string
that no quote closes goes on to the end. -/
theorem pieces_induction {motive : Nat → List Char → Prop} (nil : ∀ position, motive position [])
    (blank : ∀ position c rest, isBlank c = true → motive (position + c.utf8Size) rest → motive position (c :: rest))
    (mark : ∀ position c rest k, markKind? c = some k → motive (position + c.utf8Size) rest →
      motive position (c :: rest))
    (openQuoted : ∀ position rest, readQuoted rest = none → motive position (quote :: rest))
    (quoted : ∀ position rest body size rest', readQuoted rest = some (body, size, rest') →
      motive (position + 1 + size) rest' → motive position (quote :: rest))
    (openTagged : ∀ position tag rest, IsWord tag → readQuoted rest = none → motive position (tag ++ quote :: rest))
    (tagged : ∀ position tag rest body size rest', IsWord tag → readQuoted rest = some (body, size, rest') →
      motive (position + byteLength tag + 1 + size) rest' → motive position (tag ++ quote :: rest))
    (word : ∀ position word rest, IsWord word → Ends rest → motive (position + byteLength word) rest →
      motive position (word ++ rest))
    (position : Nat) (cs : List Char) : motive position cs := by
  have hfirst : ∀ (c : Char) (rest : List Char), ¬ isBlank c = true → markKind? c = none → ¬ (c == quote) = true →
      IsWord (c :: rest.takeWhile isWordChar) ∧
        (c :: rest.takeWhile isWordChar) ++ rest.dropWhile isWordChar = c :: rest := by
    intro c rest hblank hmark hquote
    refine ⟨isWord_first (by simpa using hblank) hmark (by simpa using hquote) rest, ?_⟩
    rw [List.cons_append, List.takeWhile_append_dropWhile]
  fun_induction tokensFrom position cs with
  | case1 position => exact nil position
  | case2 position c rest hblank ih => exact blank position c rest hblank ih
  | case3 position c rest hblank k hmark ih => exact mark position c rest k hmark ih
  | case4 position c rest hblank hmark hquote hread =>
    obtain rfl : c = quote := by simpa using hquote
    exact openQuoted position rest hread
  | case5 position c rest hblank hmark hquote body size rest' hread hlt ih =>
    obtain rfl : c = quote := by simpa using hquote
    exact quoted position rest body size rest' hread ih
  | case6 position c rest hblank hmark hquote tag after hle rest' hdrop hread =>
    obtain ⟨htag, hcut⟩ := hfirst c rest hblank hmark hquote
    rw [← hcut, hdrop]
    exact openTagged position tag rest' htag hread
  | case7 position c rest hblank hmark hquote tag after hle rest' hdrop body size rest'' hread hlt hle' =>
    rename_i ih
    obtain ⟨htag, hcut⟩ := hfirst c rest hblank hmark hquote
    rw [← hcut, hdrop]
    exact tagged position tag rest' body size rest'' htag hread ih
  | case8 position c rest hblank hmark hquote first after hle hend hle' =>
    rename_i ih
    obtain ⟨hword, hcut⟩ := hfirst c rest hblank hmark hquote
    rw [← hcut]
    refine word position first _ hword ?_ ih
    intro d hd
    have hnot : isWordChar d = false := by
      have hhead := List.head?_dropWhile_not isWordChar rest
      simpa [hd] using hhead
    refine ⟨hnot, ?_⟩
    rintro rfl
    obtain ⟨ds, hds⟩ := List.head?_eq_some_iff.mp hd
    exact hend ds hds

/-- A text that can be cut into tokens is a piece of them, whatever follows it. -/
theorem Lexes.of_tokensFrom {position : Nat} {ts : List Token} (h : tokensFrom position cs = .ok ts) :
    Lexes cs (kinds ts) := by
  have hends : ∀ {more}, Ends more → more.head? ≠ some quote := fun hmore hquote => (hmore quote hquote).2 rfl
  induction position, cs using pieces_induction generalizing ts with
  | nil position =>
    rw [tokensFrom_nil] at h
    cases h
    exact lexes_nil
  | blank position c rest hblank ih =>
    rw [tokensFrom_blank hblank] at h
    exact (ih h).blank hblank
  | mark position c rest k hmark ih =>
    rw [tokensFrom_mark hmark] at h
    obtain ⟨ts, hts, rfl⟩ := map_eq_ok.mp h
    exact (ih hts).mark hmark
  | openQuoted position rest hread =>
    rw [tokensFrom_open hread] at h
    cases h
  | quoted position rest body size rest' hread ih =>
    rw [tokensFrom_quoted hread] at h
    obtain ⟨ts, hts, rfl⟩ := map_eq_ok.mp h
    exact .cons (ih hts) fun position more hmore =>
      ⟨_, tokensFrom_quoted (readQuoted_append hread (hends hmore)) position⟩
  | openTagged position tag rest htag hread =>
    rw [tokensFrom_taggedOpen htag hread] at h
    cases h
  | tagged position tag rest body size rest' htag hread ih =>
    rw [tokensFrom_tagged htag hread] at h
    obtain ⟨ts, hts, rfl⟩ := map_eq_ok.mp h
    refine .cons (ih hts) fun position more hmore => ?_
    rw [List.append_assoc, List.cons_append]
    exact ⟨_, tokensFrom_tagged htag (readQuoted_append hread (hends hmore)) position⟩
  | word position word rest hword hrest ih =>
    rw [tokensFrom_word hword hrest] at h
    obtain ⟨ts, hts, rfl⟩ := map_eq_ok.mp h
    refine .cons (ih hts) fun position more hmore => ?_
    -- the word ends where it ended before, or else with the text
    have hafter : Ends (rest ++ more) := by
      cases rest with
      | nil => exact hmore
      | cons d ds => exact ends_cons (hrest d rfl).1 (hrest d rfl).2 _
    rw [List.append_assoc]
    exact ⟨_, tokensFrom_word hword hafter position⟩

/-! ## Words of a text -/

/-- Every word that a text is cut into consists of word characters. -/
theorem isWord_of_mem_tokensFrom {position : Nat} {ts : List Token} (h : tokensFrom position cs = .ok ts)
    {word : String} (hword : .word word ∈ kinds ts) : IsWord word.toList := by
  induction position, cs using pieces_induction generalizing ts with
  | nil position =>
    rw [tokensFrom_nil] at h
    cases h
    simp at hword
  | blank position c rest hblank ih =>
    rw [tokensFrom_blank hblank] at h
    exact ih h hword
  | mark position c rest k hmark ih =>
    rw [tokensFrom_mark hmark] at h
    obtain ⟨ts, hts, rfl⟩ := map_eq_ok.mp h
    have hne : TokenKind.word word ≠ k := by
      rcases markKind?_cases hmark with ⟨_, rfl⟩ | ⟨_, rfl⟩ | ⟨_, rfl⟩ <;> simp
    exact ih hts (List.mem_of_ne_of_mem hne hword)
  | openQuoted position rest hread =>
    rw [tokensFrom_open hread] at h
    cases h
  | quoted position rest body size rest' hread ih =>
    rw [tokensFrom_quoted hread] at h
    obtain ⟨ts, hts, rfl⟩ := map_eq_ok.mp h
    exact ih hts (List.mem_of_ne_of_mem (by simp) hword)
  | openTagged position tag rest htag hread =>
    rw [tokensFrom_taggedOpen htag hread] at h
    cases h
  | tagged position tag rest body size rest' htag hread ih =>
    rw [tokensFrom_tagged htag hread] at h
    obtain ⟨ts, hts, rfl⟩ := map_eq_ok.mp h
    exact ih hts (List.mem_of_ne_of_mem (by simp) hword)
  | word position first rest hfirst hrest ih =>
    rw [tokensFrom_word hfirst hrest] at h
    obtain ⟨ts, hts, rfl⟩ := map_eq_ok.mp h
    rcases List.mem_cons.mp hword with heq | hword
    · cases heq
      rwa [String.toList_ofList]
    · exact ih hts hword

end EntityStore.Filter
