import EntityStore.Proofs.Filter.QuotedText
import EntityStore.Proofs.Filter.Reading

/-!
# Where faults lie

The offsets of tokens and of faults are places in the text. A token lies where a character begins that is no blank, and
each reader blames a token it was given or the end of the text. Main statement: `fault_place_and_token_places`.
-/
namespace EntityStore.Filter

open EntityStore.Text

/-! ## Places of tokens -/

/-- A character that is no blank begins at the offset. -/
def Begins (cs : List Char) (offset : Nat) : Prop :=
  ∃ before c after, cs = before ++ c :: after ∧ isBlank c = false ∧ offset = byteLength before

/-- In a text that starts at the position, the tokens lie one after the other where characters begin. -/
structure Placed (position : Nat) (cs : List Char) (ts : List Token) : Prop where
  begins : ∀ t ∈ ts, ∃ offset, t.position = position + offset ∧ Begins cs offset
  ascending : ts.Pairwise fun t u => t.position < u.position

variable {position offset : Nat} {c : Char} {cs front rest : List Char} {ts : List Token}

theorem begins_first (hc : isBlank c = false) (rest : List Char) : Begins (c :: rest) 0 :=
  ⟨[], c, rest, rfl, hc, rfl⟩

theorem Begins.after (h : Begins rest offset) (front : List Char) :
    Begins (front ++ rest) (byteLength front + offset) := by
  obtain ⟨before, c, after, rfl, hc, rfl⟩ := h
  exact ⟨front ++ before, c, after, by rw [List.append_assoc], hc, by rw [byteLength_append]⟩

/-- What comes of cutting a text that starts at the position: tokens at their places, or else a string that no quote
closes and whose place is that of its opening quote. -/
def Lays (position : Nat) (cs : List Char) : Except ParseError (List Token) → Prop
  | .ok ts => Placed position cs ts
  | .error e => ∃ offset, e = .malformed (position + offset) .unterminatedString ∧ Begins cs offset

variable {cut : Except ParseError (List Token)}

theorem Lays.after (front : List Char) (h : Lays (position + byteLength front) rest cut) :
    Lays position (front ++ rest) cut := by
  cases cut with
  | error e =>
    obtain ⟨offset, rfl, hbegins⟩ := h
    exact ⟨byteLength front + offset, by rw [Nat.add_assoc], hbegins.after front⟩
  | ok ts =>
    refine ⟨fun t ht => ?_, h.ascending⟩
    obtain ⟨offset, hposition, hbegins⟩ := h.begins t ht
    exact ⟨byteLength front + offset, by rw [hposition, Nat.add_assoc], hbegins.after front⟩

/-- A token at the first character, before what comes of the rest. -/
theorem Lays.cons (hc : isBlank c = false) (k : TokenKind) (front : List Char)
    (h : Lays (position + byteLength (c :: front)) rest cut) :
    Lays position (c :: front ++ rest) (cut.map (⟨k, position⟩ :: ·)) := by
  have hrest : Lays position (c :: front ++ rest) cut := h.after _
  cases cut with
  | error e => exact hrest
  | ok ts =>
    refine ⟨List.forall_mem_cons.mpr ⟨⟨0, rfl, begins_first hc _⟩, hrest.begins⟩,
      List.pairwise_cons.mpr ⟨fun t ht => ?_, h.ascending⟩⟩
    obtain ⟨offset, hposition, _⟩ := h.begins t ht
    have hpos := c.utf8Size_pos
    simp only [hposition, byteLength_cons]
    omega

theorem not_isBlank_of_markKind? {k : TokenKind} (h : markKind? c = some k) : isBlank c = false := by
  rcases markKind?_cases h with ⟨rfl, -⟩ | ⟨rfl, -⟩ | ⟨rfl, -⟩ <;> decide

theorem byteLength_quote (front : List Char) : byteLength (quote :: front) = 1 + byteLength front := rfl

/-- A word begins with a character that is no blank. -/
theorem IsWord.exists_cons {word : List Char} (h : IsWord word) : ∃ c front, word = c :: front ∧ isBlank c = false := by
  obtain ⟨hne, hchars⟩ := h
  cases word with
  | nil => contradiction
  | cons c front => exact ⟨c, front, rfl, (isWordChar_iff.mp (hchars c List.mem_cons_self)).1⟩

theorem lays_tokensFrom (position : Nat) (cs : List Char) : Lays position cs (tokensFrom position cs) := by
  have hquote : isBlank quote = false := by decide
  induction position, cs using pieces_induction with
  | nil position =>
    rw [tokensFrom_nil]
    exact ⟨nofun, .nil⟩
  | blank position c rest hblank ih =>
    rw [tokensFrom_blank hblank]
    exact ih.after [c]
  | mark position c rest k hmark ih =>
    rw [tokensFrom_mark hmark]
    exact Lays.cons (not_isBlank_of_markKind? hmark) k [] ih
  | openQuoted position rest hread =>
    rw [tokensFrom_open hread]
    exact ⟨0, rfl, begins_first hquote rest⟩
  | quoted position rest body size rest' hread ih =>
    rw [tokensFrom_quoted hread]
    obtain ⟨front, rfl, rfl⟩ := byteLength_of_readQuoted hread
    rw [Nat.add_assoc] at ih ⊢
    exact Lays.cons hquote _ front ih
  | openTagged position tag rest htag hread =>
    rw [tokensFrom_taggedOpen htag hread]
    exact ⟨byteLength tag, rfl, (begins_first hquote rest).after tag⟩
  | tagged position tag rest body size rest' htag hread ih =>
    rw [tokensFrom_tagged htag hread]
    obtain ⟨front, rfl, rfl⟩ := byteLength_of_readQuoted hread
    obtain ⟨c, tag, rfl, hc⟩ := htag.exists_cons
    have hsize : position + byteLength (c :: tag) + 1 + byteLength front =
        position + byteLength (c :: (tag ++ quote :: front)) := by
      rw [← List.cons_append, byteLength_append, byteLength_quote]
      omega
    have happend : c :: tag ++ quote :: (front ++ rest') = c :: (tag ++ quote :: front) ++ rest' := by simp
    rw [hsize] at ih ⊢
    rw [happend]
    exact Lays.cons hc _ _ ih
  | word position word rest hword hends ih =>
    rw [tokensFrom_word hword hends]
    obtain ⟨c, front, rfl, hc⟩ := hword.exists_cons
    exact Lays.cons hc _ _ ih

/-! ## Blame -/

/-- The tokens lie at such positions. -/
def At (P : Nat → Prop) (ts : List Token) : Prop := ∀ t ∈ ts, P t.position

/-- The result of a reader: it leaves tokens at such positions, or else blames such a position. -/
def Blames {α : Type} (P : Nat → Prop) (rest : α → List Token) : Except ParseError α → Prop
  | .ok a => At P (rest a)
  | .error (.malformed position _) => P position
  | .error _ => True

variable {α β : Type} {P : Nat → Prop} {stop : Nat}

theorem Blames.bind {x : Except ParseError α} {f : α → Except ParseError β} {left : α → List Token}
    {left' : β → List Token} (h : Blames P left x) (hf : ∀ a, At P (left a) → Blames P left' (f a)) :
    Blames P left' (x >>= f) := by
  cases x with
  | error e => cases e <;> exact h
  | ok a => exact hf a h

theorem Blames.map {x : Except ParseError α} {f : α → β} {left : α → List Token} {left' : β → List Token}
    (h : Blames P left x) (hf : ∀ a, At P (left a) → At P (left' (f a))) : Blames P left' (x.map f) := by
  cases x with
  | error e => cases e <;> exact h
  | ok a => exact hf a h

theorem at_nil : At P [] := nofun

theorem At.tail {token : Token} (h : At P (token :: ts)) : At P ts := fun t ht => h t (List.mem_cons_of_mem _ ht)

theorem At.head {token : Token} (h : At P (token :: ts)) : P token.position := h token List.mem_cons_self

/-! ## Readers -/

section

variable (hstop : P stop) (hts : At P ts)

include hstop hts

theorem at_nextPosition : P (nextPosition stop ts) := by
  cases ts with
  | nil => exact hstop
  | cons token ts => exact hts.head

theorem blames_expect (kind : TokenKind) (what : Expectation) : Blames P id (expect stop kind what ts) := by
  cases ts with
  | nil => exact hstop
  | cons token ts =>
    rw [expect]
    split
    · exact hts.tail
    · exact hts.head

end

theorem blames_checkProperty (hposition : P position) (name : String) :
    Blames P (fun _ => []) (checkProperty position name) := by
  unfold checkProperty
  split
  · trivial
  split
  · exact at_nil
  · exact hposition

theorem blames_wordLiteral (hposition : P position) (word : String) :
    Blames P (fun _ => []) (wordLiteral position word) := by
  unfold wordLiteral
  repeat' split
  all_goals first | exact at_nil | exact hposition | trivial

theorem blames_taggedLiteral (hposition : P position) (tag body : String) :
    Blames P (fun _ => []) (taggedLiteral position tag body) := by
  unfold taggedLiteral
  cases Timestamp.read? body <;> dsimp only <;> repeat' split
  all_goals first | exact at_nil | exact hposition

section

variable (hstop : P stop) (hts : At P ts)

include hstop hts

theorem blames_readLiteral : Blames P Prod.snd (readLiteral stop ts) := by
  unfold readLiteral
  split
  · exact hstop
  · split
    · exact hts.tail
    · trivial
  · exact (blames_taggedLiteral hts.head _ _).map fun _ _ => hts.tail
  · exact (blames_wordLiteral hts.head _).map fun _ _ => hts.tail
  · exact hts.head

theorem blames_readProperty : Blames P Prod.snd (readProperty stop ts) := by
  unfold readProperty
  split
  · split
    · exact hts.head
    · exact (blames_checkProperty hts.head _).map fun _ _ => hts.tail
  · exact at_nextPosition hstop hts

theorem blames_readComparator : Blames P Prod.snd (readComparator stop ts) := by
  unfold readComparator
  split
  · split
    · exact hts.tail
    · split
      · trivial
      · exact hts.head
  · exact at_nextPosition hstop hts

theorem blames_readComparison (hposition : P position) (property : String) :
    Blames P Prod.snd (readComparison stop property position ts) := by
  refine (blames_checkProperty hposition property).bind fun _ _ => ?_
  refine (blames_readComparator hstop hts).bind fun (op, ts) hts => ?_
  refine (blames_readLiteral hstop hts).bind fun (operand, rest) hrest => ?_
  dsimp only
  split
  · exact at_nextPosition hstop hts
  · exact hrest

omit hstop hts in
theorem blames_functionOfWord (hposition : P position) (word : String) :
    Blames P (fun _ => []) (functionOfWord position word) := by
  unfold functionOfWord
  repeat' split
  all_goals first | exact at_nil | exact hposition | trivial

theorem blames_readCall (hposition : P position) (word : String) :
    Blames P Prod.snd (readCall stop word position ts) := by
  refine (blames_functionOfWord hposition word).bind fun test _ => ?_
  cases test with
  | startsWith =>
    refine (blames_expect hstop hts _ _).bind fun ts hts => ?_
    refine (blames_readProperty hstop hts).bind fun (property, ts) hts => ?_
    refine (blames_expect hstop hts _ _).bind fun ts hts => ?_
    refine (blames_readLiteral hstop hts).bind fun (operand, ts) hts => ?_
    exact (blames_expect hstop hts _ _).bind fun ts hts => hts
  | substringOf =>
    refine (blames_expect hstop hts _ _).bind fun ts hts => ?_
    refine (blames_readLiteral hstop hts).bind fun (operand, ts) hts => ?_
    refine (blames_expect hstop hts _ _).bind fun ts hts => ?_
    refine (blames_readProperty hstop hts).bind fun (property, ts) hts => ?_
    exact (blames_expect hstop hts _ _).bind fun ts hts => hts

theorem blames_readLeaf (hposition : P position) (word : String) :
    Blames P Prod.snd (readLeaf stop word position ts) := by
  unfold readLeaf
  split
  · exact hposition
  split
  · trivial
  split
  · exact blames_readCall hstop hts hposition word
  · split
    · exact hposition
    · exact blames_readComparison hstop hts hposition word

end

/-! ## Trees -/

/-- Given tokens at such positions, the reader blames such a position and leaves such tokens. -/
def BlamesAt (P : Nat → Prop) (reader : TreeReader) : Prop :=
  ∀ spare ts, At P ts → Blames P Progress.rest (reader spare ts)

theorem blames_chainFrom {operand : TreeReader} (hoperand : BlamesAt P operand) (connective : Connective) (fuel : Nat)
    {left : Progress} (hleft : At P left.rest) : Blames P Progress.rest (chainFrom connective operand fuel left) := by
  induction fuel generalizing left with
  | zero =>
    unfold chainFrom
    split
    · exact hleft
    · rename_i hmore
      rw [takeConnective?_eq_some_iff.mp hmore] at hleft
      exact hleft.head
  | succ fuel ih =>
    unfold chainFrom
    split
    · exact hleft
    · rename_i hmore
      rw [takeConnective?_eq_some_iff.mp hmore] at hleft
      obtain ⟨tree, spare, rest⟩ := left
      cases spare with
      | zero => exact hleft.head
      | succ spare => exact (hoperand _ _ hleft.tail).bind fun right hright => ih hright

theorem blamesAt_chain {operand : TreeReader} (hoperand : BlamesAt P operand) (connective : Connective) :
    BlamesAt P (chain connective operand) := fun spare ts hts =>
  (hoperand spare ts hts).bind fun _ hfirst => blames_chainFrom hoperand connective _ hfirst

section

variable (hstop : P stop)

include hstop

theorem blamesAt_readPrimary {inner : Option TreeReader} (hinner : ∀ reader, inner = some reader → BlamesAt P reader) :
    BlamesAt P (readPrimary stop inner) := by
  intro spare ts hts
  unfold readPrimary
  split
  · exact hstop
  · split
    · exact hts.head
    · refine (hinner _ rfl spare _ hts.tail).bind fun inside hinside => ?_
      exact (blames_expect hstop hinside _ _).bind fun ts hts => hts
  · exact (blames_readLeaf hstop hts.tail hts.head _).bind fun (leaf, ts) hts => hts
  · exact hts.head

theorem blamesAt_readTree (depth : Nat) : BlamesAt P (readTree stop depth) := by
  induction depth with
  | zero => exact blamesAt_chain (blamesAt_chain (blamesAt_readPrimary hstop (by simp)) .and) .or
  | succ depth ih =>
    refine blamesAt_chain (blamesAt_chain (blamesAt_readPrimary hstop ?_) .and) .or
    rintro _ ⟨⟩
    exact ih

theorem blames_ofTokens (hzero : P 0) (hts : At P ts) : Blames P (fun _ => []) (ofTokens stop ts) := by
  unfold ofTokens
  split
  · exact hzero
  · refine (blamesAt_readTree hstop depthMax connectiveMax ts hts).bind fun all hall => ?_
    split
    · exact at_nil
    · rename_i hrest
      rw [hrest] at hall
      exact hall.head

end

/-! ## Texts -/

theorem mem_of_unmatchedClose? {opened : Nat} (h : unmatchedClose? opened ts = some position) :
    ∃ t ∈ ts, t.position = position := by
  fun_induction unmatchedClose? opened ts with
  | case1 => cases h
  | case2 _ _ rest ih | case4 _ _ _ ih | case5 _ _ _ _ _ ih =>
    obtain ⟨t, ht, hposition⟩ := ih h
    exact ⟨t, List.mem_cons_of_mem _ ht, hposition⟩
  | case3 =>
    cases h
    exact ⟨_, List.mem_cons_self, rfl⟩

theorem keepClosed_sublist (ts : List Token) : (keepClosed ts).1.Sublist ts := by
  induction ts with
  | nil => exact .slnil
  | cons token ts ih =>
    obtain ⟨kind, position⟩ := token
    by_cases hopen : kind = .openParen
    · subst hopen
      rw [keepClosed_open]
      split
      · exact ih.cons_cons _
      · exact ih.cons _
    by_cases hclose : kind = .closeParen
    · subst hclose
      exact ih.cons_cons _
    · rw [keepClosed_other hopen hclose]
      exact ih.cons_cons _

theorem blames_matchParens (hts : At P ts) : Blames P id (matchParens ts) := by
  unfold matchParens
  split
  · rename_i hunmatched
    obtain ⟨t, ht, rfl⟩ := mem_of_unmatchedClose? hunmatched
    exact hts t ht
  · exact fun t ht => hts t ((keepClosed_sublist ts).subset ht)

theorem Lays.blames (h : Lays 0 cs cut) (hP : ∀ offset, Begins cs offset → P offset) : Blames P id cut := by
  cases cut with
  | error e =>
    obtain ⟨offset, rfl, hbegins⟩ := h
    exact hP _ (by rwa [Nat.zero_add])
  | ok ts =>
    intro t ht
    obtain ⟨offset, hposition, hbegins⟩ := h.begins t ht
    rw [hposition, Nat.zero_add]
    exact hP offset hbegins

/-- A fault lies at one of the ends of the text, or where a character begins that is no blank. -/
theorem place_of_parse_error {text : String} {fault : Fault} (h : parse text = .error (.malformed position fault)) :
    position = 0 ∨ position = byteLength text.toList ∨ Begins text.toList position := by
  let P position := position = 0 ∨ position = byteLength text.toList ∨ Begins text.toList position
  have htokens : Blames P id (tokens text) :=
    (lays_tokensFrom 0 text.toList).blames fun offset hbegins => .inr (.inr hbegins)
  have hparse : Blames P (fun _ => []) (parse text) := by
    refine htokens.bind fun ts hts => ?_
    refine (blames_matchParens hts).bind fun kept hkept => ?_
    exact blames_ofTokens (.inr (.inl rfl)) (.inl rfl) hkept
  rw [h] at hparse
  exact hparse

theorem isValid_of_append {text : String} {before after : List Char} (h : text.toList = before ++ after) :
    (⟨byteLength before⟩ : String.Pos.Raw).IsValid text := by
  refine String.Pos.Raw.isValid_iff_exists_append.mpr ⟨.ofList before, .ofList after, ?_, ?_⟩
  · rw [← String.ofList_append, ← h, String.ofList_toList]
  · rw [← utf8ByteSize_ofList]
    rfl

/-- The offset of a fault is at most the length of the text in octets and never in the midst of a character. The tokens
of a text lie at ascending offsets, each where a character begins that is no blank. -/
theorem fault_place_and_token_places (text : String) :
    (∀ position fault, parse text = .error (.malformed position fault) →
      position ≤ text.utf8ByteSize ∧ (⟨position⟩ : String.Pos.Raw).IsValid text) ∧
    ∀ ts, tokens text = .ok ts → ts.Pairwise (fun t u => t.position < u.position) ∧
      ∀ t ∈ ts, ∃ before c after, text.toList = before ++ c :: after ∧ isBlank c = false ∧
        t.position = (String.ofList before).utf8ByteSize := by
  constructor
  · intro position fault h
    have hvalid : (⟨position⟩ : String.Pos.Raw).IsValid text := by
      rcases place_of_parse_error h with rfl | rfl | ⟨before, c, after, htext, _, rfl⟩
      · exact String.Pos.Raw.isValid_zero
      · exact isValid_of_append (List.append_nil _).symm
      · exact isValid_of_append htext
    exact ⟨hvalid.le_utf8ByteSize, hvalid⟩
  · intro ts h
    have hplaced : Lays 0 text.toList (tokens text) := lays_tokensFrom 0 text.toList
    rw [h] at hplaced
    refine ⟨hplaced.ascending, fun t ht => ?_⟩
    obtain ⟨offset, hposition, before, c, after, htext, hc, hoffset⟩ := hplaced.begins t ht
    refine ⟨before, c, after, htext, hc, ?_⟩
    rw [hposition, Nat.zero_add, hoffset, utf8ByteSize_ofList]

end EntityStore.Filter
