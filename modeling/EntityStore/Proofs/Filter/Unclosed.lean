import EntityStore.Filter.Reading
import EntityStore.Proofs.Filter.Lexing

/-!
# Parentheses that a text never closes

An opening parenthesis that nothing closes counts as a blank. The parentheses of a text are those outside quotes, and
what closes them is said on the text itself, without its tokens. Main statement: `parse_blankUnclosed`.
-/
namespace EntityStore.Filter

open EntityStore.Text

/-- Where a character of a filter text stands. -/
inductive Place where
  | outside
  /-- In quotes. -/
  | inside
  /-- In quotes and after a backslash, so that it does not end them. -/
  | escaped
  deriving DecidableEq

/-- The place after a character. A doubled quote ends the quotes and opens them again. -/
def Place.next : Place → Char → Place
  | outside, c => if c = quote then inside else outside
  | inside, c => if c = quote then outside else if c = '\\' then escaped else inside
  | escaped, _ => inside

/-- The parentheses outside quotes, in a text that starts at a place. -/
def parens : Place → List Char → List TokenKind
  | _, [] => []
  | place, c :: cs =>
    let rest := parens (place.next c) cs
    if place = .outside ∧ c = '(' then .openParen :: rest
    else if place = .outside ∧ c = ')' then .closeParen :: rest
    else rest

instance (ks : List TokenKind) : Decidable (Closes ks) := decidable_of_iff _ (closes_iff ks).symm

/-- A text that starts at a place, with a blank for every opening parenthesis that it never closes. -/
def blankFrom : Place → List Char → List Char
  | _, [] => []
  | place, c :: cs =>
    let unclosed := place = .outside ∧ c = '(' ∧ ¬ Closes (parens (place.next c) cs)
    (if unclosed then ' ' else c) :: blankFrom (place.next c) cs

/-- A text with a blank for every opening parenthesis outside quotes that is never closed. -/
def blankUnclosed (text : String) : String := .ofList (blankFrom .outside text.toList)

variable {cs rest : List Char} {position : Nat}

/-! ## Stretches without parentheses -/

theorem blankFrom_cons {place : Place} {c : Char} (h : place = .outside → c ≠ '(') (cs : List Char) :
    blankFrom place (c :: cs) = c :: blankFrom (place.next c) cs := by
  have hkept : ¬ (place = .outside ∧ c = '(' ∧ ¬ Closes (parens (place.next c) cs)) :=
    fun hunclosed => h hunclosed.1 hunclosed.2.1
  rw [blankFrom, if_neg hkept]

theorem parens_cons {place : Place} {c : Char} (h : place = .outside → c ≠ '(' ∧ c ≠ ')') (cs : List Char) :
    parens place (c :: cs) = parens (place.next c) cs := by
  have hopen : ¬ (place = .outside ∧ c = '(') := fun hparen => (h hparen.1).1 hparen.2
  have hclose : ¬ (place = .outside ∧ c = ')') := fun hparen => (h hparen.1).2 hparen.2
  rw [parens, if_neg hopen, if_neg hclose]

theorem byteLength_blankFrom (place : Place) (cs : List Char) : byteLength (blankFrom place cs) = byteLength cs := by
  induction cs generalizing place with
  | nil => rfl
  | cons c cs ih =>
    rw [blankFrom, byteLength_cons, byteLength_cons, ih]
    split
    · rename_i hunclosed
      rw [hunclosed.2.1]
      rfl
    · rfl

theorem next_outside {c : Char} (h : c ≠ quote) : Place.outside.next c = .outside := if_neg h

/-- Word characters are no parentheses. -/
theorem ne_paren_of_isWordChar {c : Char} (h : isWordChar c = true) : c ≠ '(' ∧ c ≠ ')' := by
  refine ⟨?_, ?_⟩
  · rintro rfl
    cases h
  · rintro rfl
    cases h

theorem blankFrom_word {word : List Char} (h : ∀ c ∈ word, isWordChar c = true) (rest : List Char) :
    blankFrom .outside (word ++ rest) = word ++ blankFrom .outside rest := by
  induction word with
  | nil => rfl
  | cons c word ih =>
    obtain ⟨hc, hword⟩ := List.forall_mem_cons.mp h
    have hopen : c ≠ '(' := (ne_paren_of_isWordChar hc).1
    rw [List.cons_append, blankFrom_cons fun _ => hopen, next_outside (isWordChar_iff.mp hc).2.2, ih hword,
      List.cons_append]

theorem parens_word {word : List Char} (h : ∀ c ∈ word, isWordChar c = true) (rest : List Char) :
    parens .outside (word ++ rest) = parens .outside rest := by
  induction word with
  | nil => rfl
  | cons c word ih =>
    obtain ⟨hc, hword⟩ := List.forall_mem_cons.mp h
    have hparens := ne_paren_of_isWordChar hc
    rw [List.cons_append, parens_cons fun _ => hparens, next_outside (isWordChar_iff.mp hc).2.2, ih hword]

/-- The first character stays, or it is a parenthesis. -/
theorem head?_blankFrom {place : Place} {c : Char} (h : (blankFrom place cs).head? = some c) :
    cs.head? = some c ∨ c = ' ' ∧ cs.head? = some '(' := by
  cases cs with
  | nil => cases h
  | cons d cs =>
    rw [blankFrom] at h
    cases h
    split
    · rename_i hunclosed
      exact .inr ⟨rfl, by rw [hunclosed.2.1]; rfl⟩
    · exact .inl rfl

/-! ## Quoted strings -/

theorem blankFrom_inside (c : Char) (cs : List Char) :
    blankFrom .inside (c :: cs) = c :: blankFrom (Place.inside.next c) cs :=
  blankFrom_cons (fun h => by cases h) cs

theorem blankFrom_escaped (c : Char) (cs : List Char) : blankFrom .escaped (c :: cs) = c :: blankFrom .inside cs :=
  blankFrom_cons (fun h => by cases h) cs

theorem blankFrom_quote (cs : List Char) : blankFrom .outside (quote :: cs) = quote :: blankFrom .inside cs :=
  blankFrom_cons (fun _ => by decide) cs

/-- A quoted string is read as before, and what follows it is outside quotes. -/
theorem readQuoted_blankFrom (cs : List Char) : readQuoted (blankFrom .inside cs) =
    (readQuoted cs).map fun (body, size, rest) => (body, size, blankFrom .outside rest) := by
  fun_induction readQuoted cs with
  | case1 => rfl
  | case2 cs ih =>
    have hwalk : blankFrom .inside (quote :: quote :: cs) = quote :: quote :: blankFrom .inside cs := by
      rw [blankFrom_inside, ← blankFrom_quote cs]
      rfl
    rw [← quote, hwalk, quote, readQuoted, ih, Option.map_map, Option.map_map]
    rfl
  | case3 cs hend =>
    have hwalk : blankFrom .inside (quote :: cs) = quote :: blankFrom .outside cs := blankFrom_inside _ _
    have hfollow : ∀ rest, blankFrom .outside cs ≠ '\x27' :: rest := by
      intro rest heq
      have hhead : (blankFrom .outside cs).head? = some quote := by rw [heq]; rfl
      rcases head?_blankFrom hhead with hhead | ⟨hblank, -⟩
      · obtain ⟨more, rfl⟩ := List.head?_eq_some_iff.mp hhead
        exact hend more rfl
      · cases hblank
    rw [← quote, hwalk, quote, readQuoted]
    · rfl
    · exact hfollow
  | case4 c cs ih =>
    have hwalk : blankFrom .inside ('\\' :: c :: cs) = '\\' :: c :: blankFrom .inside cs := by
      rw [blankFrom_inside, ← blankFrom_escaped c cs]
      rfl
    rw [hwalk, readQuoted, ih, Option.map_map, Option.map_map]
    rfl
  | case5 c cs hdoubled hquote hescape ih =>
    have hquote' : c ≠ quote := hquote
    cases cs with
    | nil =>
      have hopen : readQuoted [c] = none := by
        rw [readQuoted.eq_def]
        split <;> simp_all [readQuoted]
      rw [blankFrom_inside, blankFrom, hopen]
      rfl
    | cons d cs =>
      have hbackslash : c ≠ '\\' := fun hc => hescape d cs hc rfl
      have hwalk : blankFrom .inside (c :: d :: cs) = c :: blankFrom .inside (d :: cs) := by
        rw [blankFrom_inside, Place.next, if_neg hquote', if_neg hbackslash]
      rw [hwalk, readQuoted_plain hquote' hbackslash, ih, Option.map_map, Option.map_map]
      rfl

theorem parens_inside (c : Char) (cs : List Char) :
    parens .inside (c :: cs) = parens (Place.inside.next c) cs :=
  parens_cons (fun h => by cases h) cs

theorem parens_escaped (c : Char) (cs : List Char) : parens .escaped (c :: cs) = parens .inside cs :=
  parens_cons (fun h => by cases h) cs

theorem parens_quote (cs : List Char) : parens .outside (quote :: cs) = parens .inside cs :=
  parens_cons (fun _ => by decide) cs

/-- A quoted string has no parentheses of the text. -/
theorem parens_of_readQuoted {body rest : List Char} {size : Nat} (h : readQuoted cs = some (body, size, rest)) :
    parens .inside cs = parens .outside rest := by
  fun_induction readQuoted cs generalizing body size rest with
  | case1 => cases h
  | case2 cs ih =>
    obtain ⟨⟨b, n, r⟩, hread, heq⟩ := Option.map_eq_some_iff.mp h
    cases heq
    rw [parens_inside, ← ih hread, ← parens_quote]
    rfl
  | case3 cs hend =>
    cases h
    exact parens_inside _ _
  | case4 c cs ih =>
    obtain ⟨⟨b, n, r⟩, hread, heq⟩ := Option.map_eq_some_iff.mp h
    cases heq
    rw [parens_inside, ← ih hread, ← parens_escaped c]
    rfl
  | case5 c cs hdoubled hquote hescape ih =>
    have hquote' : c ≠ quote := hquote
    obtain ⟨⟨b, n, r⟩, hread, heq⟩ := Option.map_eq_some_iff.mp h
    cases heq
    obtain ⟨d, ds, rfl⟩ : ∃ d ds, cs = d :: ds := by
      cases cs with
      | nil => cases hread
      | cons d ds => exact ⟨d, ds, rfl⟩
    have hbackslash : c ≠ '\\' := fun hc => hescape d ds hc rfl
    rw [parens_inside, Place.next, if_neg hquote', if_neg hbackslash, ih hread]

/-! ## Tokens -/

theorem ne_of_isBlank {c : Char} (h : isBlank c = true) : c ≠ '(' ∧ c ≠ ')' ∧ c ≠ quote := by
  refine ⟨?_, ?_, ?_⟩ <;> (rintro rfl; cases h)

/-- The parentheses of a text are those of its tokens. -/
theorem pending_parens {ts : List Token} (h : tokensFrom position cs = .ok ts) :
    pending (parens .outside cs) = pending (kinds ts) := by
  induction position, cs using pieces_induction generalizing ts with
  | nil position =>
    rw [tokensFrom_nil] at h
    cases h
    rfl
  | blank position c rest hblank ih =>
    obtain ⟨hopen, hclose, hquote⟩ := ne_of_isBlank hblank
    rw [tokensFrom_blank hblank] at h
    rw [parens_cons fun _ => ⟨hopen, hclose⟩, next_outside hquote, ih h]
  | mark position c rest k hmark ih =>
    rw [tokensFrom_mark hmark] at h
    obtain ⟨us, hus, rfl⟩ := map_eq_ok.mp h
    rcases markKind?_cases hmark with ⟨rfl, rfl⟩ | ⟨rfl, rfl⟩ | ⟨rfl, rfl⟩
    · exact congrArg (· - 1) (ih hus)
    · exact congrArg (· + 1) (ih hus)
    · exact (ih hus).trans rfl
  | openQuoted position rest hread =>
    rw [tokensFrom_open hread] at h
    cases h
  | quoted position rest body size rest' hread ih =>
    rw [tokensFrom_quoted hread] at h
    obtain ⟨us, hus, rfl⟩ := map_eq_ok.mp h
    rw [parens_quote, parens_of_readQuoted hread, ih hus]
    rfl
  | openTagged position tag rest htag hread =>
    rw [tokensFrom_taggedOpen htag hread] at h
    cases h
  | tagged position tag rest body size rest' htag hread ih =>
    rw [tokensFrom_tagged htag hread] at h
    obtain ⟨us, hus, rfl⟩ := map_eq_ok.mp h
    rw [parens_word htag.chars, parens_quote, parens_of_readQuoted hread, ih hus]
    rfl
  | word position word rest hword hrest ih =>
    rw [tokensFrom_word hword hrest] at h
    obtain ⟨us, hus, rfl⟩ := map_eq_ok.mp h
    rw [parens_word hword.chars, ih hus]
    rfl

/-- A token that is no parenthesis is kept in its place. -/
theorem map_keepClosed_other {token : Token} (h : token.kind ≠ .openParen) (h' : token.kind ≠ .closeParen)
    (r : Except ParseError (List Token)) :
    (r.map (token :: ·)).map (fun ts => (keepClosed ts).1) = (r.map fun ts => (keepClosed ts).1).map (token :: ·) := by
  cases r with
  | error e => rfl
  | ok ts => exact congrArg Except.ok (congrArg Prod.fst (keepClosed_other h h' ts))

/-- An opening parenthesis is dropped with the blank that it becomes. -/
theorem tokensFrom_blankFrom_open {rest : List Char}
    (ih : tokensFrom (position + 1) (blankFrom .outside rest) =
      (tokensFrom (position + 1) rest).map fun ts => (keepClosed ts).1) :
    tokensFrom position (blankFrom .outside ('(' :: rest)) =
      ((tokensFrom (position + 1) rest).map (⟨.openParen, position⟩ :: ·)).map fun ts => (keepClosed ts).1 := by
  have hsize : '('.utf8Size = 1 := rfl
  have hspace : ' '.utf8Size = 1 := rfl
  have hnext : Place.outside.next '(' = .outside := rfl
  rw [blankFrom, hnext]
  split
  · rename_i hunclosed
    rw [tokensFrom_blank (by decide), hspace, ih]
    cases hread : tokensFrom (position + 1) rest with
    | error e => rfl
    | ok ts =>
      have hzero : ¬ 0 < (keepClosed ts).2 := by
        rw [keepClosed_snd, ← pending_parens hread, ← closes_iff]
        exact hunclosed.2.2
      simp only [Except.map, keepClosed_open, if_neg hzero]
  · rename_i hclosed
    rw [tokensFrom_mark (k := .openParen) rfl, hsize, ih]
    cases hread : tokensFrom (position + 1) rest with
    | error e => rfl
    | ok ts =>
      have hpos : 0 < (keepClosed ts).2 := by
        rw [keepClosed_snd, ← pending_parens hread, ← closes_iff]
        exact not_not.mp fun hunclosed => hclosed ⟨rfl, rfl, hunclosed⟩
      simp only [Except.map, keepClosed_open, if_pos hpos]

/-- Without the parentheses that are never closed a text has the other tokens, all at the same places. -/
theorem tokensFrom_blankFrom (position : Nat) (cs : List Char) :
    tokensFrom position (blankFrom .outside cs) = (tokensFrom position cs).map fun ts => (keepClosed ts).1 := by
  induction position, cs using pieces_induction with
  | nil position =>
    rw [blankFrom, tokensFrom_nil]
    rfl
  | blank position c rest hblank ih =>
    obtain ⟨hopen, -, hquote⟩ := ne_of_isBlank hblank
    rw [blankFrom_cons fun _ => hopen, next_outside hquote, tokensFrom_blank hblank, tokensFrom_blank hblank, ih]
  | mark position c rest k hmark ih =>
    rw [tokensFrom_mark hmark]
    rcases markKind?_cases hmark with ⟨rfl, rfl⟩ | ⟨rfl, rfl⟩ | ⟨rfl, rfl⟩
    · exact tokensFrom_blankFrom_open ih
    · rw [blankFrom_cons fun _ => by decide, next_outside (by decide), tokensFrom_mark hmark, ih]
      cases tokensFrom (position + ')'.utf8Size) rest with
      | error e => rfl
      | ok ts => exact congrArg Except.ok (congrArg Prod.fst (keepClosed_close position ts)).symm
    · rw [blankFrom_cons fun _ => by decide, next_outside (by decide), tokensFrom_mark hmark, ih,
        map_keepClosed_other (by simp) (by simp)]
  | openQuoted position rest hread =>
    have hread' : readQuoted (blankFrom .inside rest) = none := by rw [readQuoted_blankFrom, hread]; rfl
    rw [blankFrom_quote, tokensFrom_open hread, tokensFrom_open hread']
    rfl
  | quoted position rest body size rest' hread ih =>
    have hread' := readQuoted_blankFrom rest
    rw [hread] at hread'
    rw [blankFrom_quote, tokensFrom_quoted hread, tokensFrom_quoted hread', ih,
      map_keepClosed_other (by simp) (by simp)]
  | openTagged position tag rest htag hread =>
    have hread' : readQuoted (blankFrom .inside rest) = none := by rw [readQuoted_blankFrom, hread]; rfl
    rw [blankFrom_word htag.chars, blankFrom_quote, tokensFrom_taggedOpen htag hread, tokensFrom_taggedOpen htag hread']
    rfl
  | tagged position tag rest body size rest' htag hread ih =>
    have hread' := readQuoted_blankFrom rest
    rw [hread] at hread'
    rw [blankFrom_word htag.chars, blankFrom_quote, tokensFrom_tagged htag hread, tokensFrom_tagged htag hread', ih,
      map_keepClosed_other (by simp) (by simp)]
  | word position word rest hword hrest ih =>
    have hends : Ends (blankFrom .outside rest) := by
      intro c hc
      rcases head?_blankFrom hc with hc | ⟨rfl, -⟩
      · exact hrest c hc
      · decide
    rw [blankFrom_word hword.chars, tokensFrom_word hword hrest, tokensFrom_word hword hends, ih,
      map_keepClosed_other (by simp) (by simp)]

/-- A parenthesis that is never closed counts as a blank: the tree is the same, or else the error and its offset. -/
theorem parse_blankUnclosed (text : String) : parse (blankUnclosed text) = parse text := by
  have htokens : tokens (blankUnclosed text) = (tokens text).map fun ts => (keepClosed ts).1 := by
    rw [tokens, blankUnclosed, String.toList_ofList, tokensFrom_blankFrom, tokens]
  have hlength : byteLength (blankUnclosed text).toList = byteLength text.toList := by
    rw [blankUnclosed, String.toList_ofList, byteLength_blankFrom]
  rw [parse, parse, htokens, hlength]
  cases tokens text with
  | error e => rfl
  | ok ts =>
    change (matchParens (keepClosed ts).1 >>= _) = (matchParens ts >>= _)
    rw [matchParens_keepClosed]

/-- Parentheses in quotes neither open nor close anything. -/
example : blankUnclosed "(a eq 1 or (b eq ')' and (c eq '(')" = " a eq 1 or  b eq ')' and (c eq '(')" := by decide

end EntityStore.Filter
