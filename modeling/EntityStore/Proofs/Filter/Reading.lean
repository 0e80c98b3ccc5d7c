import EntityStore.Proofs.Filter.Leaf

/-!
# Reading and the grammar

The reader accepts exactly the sentences of the grammar. Each reader of a part is sound, since what it takes
denotes its result, and complete, since it reads what denotes a tree and leaves what follows. Main statement:
`parse_eq_ok_iff`.
-/
namespace EntityStore.Filter

variable {stop : Nat}

/-! ## Chains -/

/-- What the reader took denotes the tree, which nests at most so deep and uses up its connectives. -/
def Reads (level : Level) (depth spare : Nat) (ts : List Token) (p : Progress) : Prop :=
  ∃ used, ts = used ++ p.rest ∧ Derives level (kinds used) p.tree ∧ p.tree.nesting ≤ depth ∧
    p.spare + p.tree.connectives = spare

/-- Whatever the reader returns is read by the grammar. -/
def Sound (level : Level) (depth : Nat) (reader : TreeReader) : Prop :=
  ∀ spare ts p, reader spare ts = .ok p → Reads level depth spare ts p

/-- The tokens do not go on with a connective of the level. -/
def Level.Stops : Level → List Token → Prop
  | operand, _ => True
  | chain .and, ts => takeConnective? .and ts = none
  | chain .or, ts => takeConnective? .or ts = none ∧ takeConnective? .and ts = none

/-- Whatever the grammar reads is returned by the reader, and what follows is left. -/
def Complete (level : Level) (depth : Nat) (reader : TreeReader) : Prop :=
  ∀ used t, Derives level (kinds used) t → t.nesting ≤ depth → ∀ spare rest, t.connectives ≤ spare →
    level.Stops rest → reader spare (used ++ rest) = .ok ⟨t, spare - t.connectives, rest⟩

theorem Level.Stops.below {c : Connective} {rest : List Token} (h : (Level.chain c).Stops rest) :
    (Level.below c).Stops rest := by
  cases c with
  | and => trivial
  | or => exact h.2

theorem Level.Stops.none {c : Connective} {rest : List Token} (h : (Level.chain c).Stops rest) :
    takeConnective? c rest = none := by
  cases c with
  | and => exact h
  | or => exact h.1

/-- The connective of a chain ends the operand before it. -/
theorem stops_connective (c : Connective) (position : Nat) (rest : List Token) :
    (Level.below c).Stops (⟨.word c.word, position⟩ :: rest) := by
  cases c with
  | and => trivial
  | or => rfl

theorem takeConnective?_eq_some_iff {c : Connective} {ts rest : List Token} {position : Nat} :
    takeConnective? c ts = some (position, rest) ↔ ts = ⟨.word c.word, position⟩ :: rest := by
  constructor
  · intro h
    unfold takeConnective? at h
    split at h
    · split at h
      · rename_i hword
        cases h; rw [hword]
      · cases h
    · cases h
  · intro h
    subst h
    simp [takeConnective?]

variable {c : Connective} {operand : TreeReader} {depth : Nat}

theorem chainFrom_sound (hoperand : Sound (.below c) depth operand) {fuel spare : Nat} {ts : List Token}
    {left p : Progress} (hleft : Reads (.chain c) depth spare ts left)
    (h : chainFrom c operand fuel left = .ok p) : Reads (.chain c) depth spare ts p := by
  induction fuel generalizing left with
  | zero =>
    unfold chainFrom at h
    split at h
    · cases h; exact hleft
    · cases h
  | succ fuel ih =>
    unfold chainFrom at h
    split at h
    · cases h; exact hleft
    · rename_i position more hmore
      obtain ⟨tree, n, rest⟩ := left
      cases n with
      | zero => cases h
      | succ n =>
        obtain ⟨right, hright, hnext⟩ := bind_eq_ok.mp h
        obtain ⟨used, rfl, hderives, hnesting, hspare⟩ := hleft
        obtain ⟨used', rfl, hderives', hnesting', hspare'⟩ := hoperand _ _ _ hright
        obtain rfl := takeConnective?_eq_some_iff.mp hmore
        refine ih ⟨used ++ ⟨.word c.word, position⟩ :: used', by simp, ?_, ?_, ?_⟩ hnext
        · simpa using Derives.join hderives hderives'
        · exact Nat.max_le.mpr ⟨hnesting, hnesting'⟩
        · simp only [Filter.connectives] at hspare ⊢
          omega

theorem chain_sound (hoperand : Sound (.below c) depth operand) : Sound (.chain c) depth (chain c operand) := by
  intro spare ts p h
  obtain ⟨first, hfirst, hfrom⟩ := bind_eq_ok.mp h
  obtain ⟨used, hused, hderives, hbounds⟩ := hoperand _ _ _ hfirst
  exact chainFrom_sound hoperand ⟨used, hused, .single hderives, hbounds⟩ hfrom

/-- After the operands of a chain the reader stands at its end with their tree, and with fuel to go on. -/
theorem chain_reaches {level : Level} {ks : List TokenKind} {t : Filter} (h : Derives level ks t)
    (hlevel : level = .chain c) (hoperand : Complete (.below c) depth operand) {used : List Token}
    (hks : kinds used = ks) (hnesting : t.nesting ≤ depth) {spare : Nat} (hspare : t.connectives ≤ spare)
    {rest : List Token} (hrest : (Level.below c).Stops rest) :
    ∃ fuel, spare - t.connectives ≤ fuel ∧ chain c operand spare (used ++ rest) =
      chainFrom c operand fuel ⟨t, spare - t.connectives, rest⟩ := by
  induction h generalizing used rest with
  | compare | startsWith | substringOf | group => cases hlevel
  | single only =>
    cases hlevel
    subst hks
    exact ⟨_, Nat.le_refl _, by rw [chain, hoperand used _ only hnesting spare rest hspare hrest]; rfl⟩
  | @join c ks ks' left right before last ih _ =>
    cases hlevel
    obtain ⟨first, more, rfl, hfirst, hmore⟩ := kinds_eq_append_iff.mp hks
    obtain ⟨position, second, rfl, rfl⟩ := kinds_eq_cons_iff.mp hmore
    simp only [nesting, connectives] at hnesting hspare
    obtain ⟨fuel, hfuel, hreach⟩ := ih rfl hfirst (by omega) (by omega)
      (stops_connective c position (second ++ rest))
    -- one more round of the loop takes the connective and the last operand
    obtain ⟨n, hn⟩ : ∃ n, spare - left.connectives = n + 1 := ⟨spare - left.connectives - 1, by omega⟩
    obtain ⟨fuel, rfl⟩ : ∃ f, fuel = f + 1 := ⟨fuel - 1, by omega⟩
    have hlast := hoperand second right last (by omega) n rest (by omega) hrest
    refine ⟨fuel, by simp only [connectives]; omega, ?_⟩
    rw [List.append_assoc, List.cons_append, hreach, hn, chainFrom, takeConnective?_eq_some_iff.mpr rfl]
    simp only [connectives]
    rw [show spare - (left.connectives + right.connectives + 1) = n - right.connectives by omega]
    simp [hlast, bind, Except.bind]

theorem chain_complete (hoperand : Complete (.below c) depth operand) :
    Complete (.chain c) depth (chain c operand) := by
  intro used t h hnesting spare rest hspare hrest
  obtain ⟨fuel, _, hreach⟩ := chain_reaches h rfl hoperand rfl hnesting hspare hrest.below
  rw [hreach, chainFrom.eq_def]
  simp [hrest.none]

/-! ## Trees -/

/-- An operand is a group, or a comparison or a call, which start with a word. -/
theorem operand_cases {ks : List TokenKind} {t : Filter} (h : Derives .operand ks t) :
    (∃ body inner, ks = TokenKind.openParen :: body ++ [TokenKind.closeParen] ∧ t = .group inner ∧
        Derives (.chain .or) body inner) ∨
      ∃ word more, ks = .word word :: more ∧ t.nesting = 0 ∧ t.connectives = 0 := by
  cases h with
  | group inside => exact .inl ⟨_, _, rfl, rfl, inside⟩
  | compare | startsWith | substringOf => exact .inr ⟨_, _, rfl, rfl, rfl⟩

theorem readPrimary_sound {inner : Option TreeReader}
    (hinner : ∀ reader, inner = some reader → ∃ d, depth = d + 1 ∧ Sound (.chain .or) d reader) :
    Sound .operand depth (readPrimary stop inner) := by
  intro spare ts p h
  unfold readPrimary at h
  split at h
  · cases h
  · split at h
    · cases h
    · rename_i position _ _ reader
      simp only [bind_eq_ok, expect_eq_ok_iff] at h
      obtain ⟨inside, hinside, rest, ⟨position', hrest⟩, heq⟩ := h
      cases heq
      obtain ⟨d, rfl, hsound⟩ := hinner reader rfl
      obtain ⟨used, rfl, hderives, hnesting, hspare⟩ := hsound _ _ _ hinside
      refine ⟨⟨.openParen, position⟩ :: used ++ [⟨.closeParen, position'⟩], ?_, ?_, ?_, hspare⟩
      · simp [hrest]
      · simpa using Derives.group hderives
      · simpa only [nesting] using Nat.succ_le_succ hnesting
  · rename_i word position ts
    simp only [bind_eq_ok, Prod.exists] at h
    obtain ⟨leaf, rest, hleaf, heq⟩ := h
    cases heq
    obtain ⟨used, rfl, hderives⟩ := readLeaf_sound hleaf
    refine ⟨⟨.word word, position⟩ :: used, rfl, hderives, ?_⟩
    rcases operand_cases hderives with ⟨_, _, hks, _⟩ | ⟨_, _, _, hnesting, hconnectives⟩
    · simp at hks
    · exact ⟨by rw [hnesting]; exact Nat.zero_le _, by rw [hconnectives]; rfl⟩
  · cases h

theorem readPrimary_complete {inner : Option TreeReader}
    (hinner : ∀ d, depth = d + 1 → ∃ reader, inner = some reader ∧ Complete (.chain .or) d reader) :
    Complete .operand depth (readPrimary stop inner) := by
  intro used t h hnesting spare rest hspare _
  rcases operand_cases h with ⟨body, inside, hks, rfl, hderives⟩ | ⟨word, more, hks, _, hconnectives⟩
  · rw [List.cons_append] at hks
    simp only [kinds_eq_cons_iff, kinds_eq_append_iff, kinds_eq_nil_iff] at hks
    obtain ⟨p, _, rfl, first, _, rfl, rfl, p', _, rfl, rfl⟩ := hks
    simp only [nesting, connectives] at hnesting hspare
    obtain ⟨d, rfl⟩ : ∃ d, depth = d + 1 := ⟨depth - 1, by omega⟩
    obtain ⟨reader, rfl, hcomplete⟩ := hinner d rfl
    have hread := hcomplete first inside hderives (by omega) spare (⟨.closeParen, p'⟩ :: rest) hspare ⟨rfl, rfl⟩
    simp [readPrimary, hread, expect, connectives]
  · obtain ⟨p, leaf, rfl, rfl⟩ := kinds_eq_cons_iff.mp hks
    have hread : readLeaf stop word p (leaf ++ rest) = .ok (t, rest) := readLeaf_complete h p rest
    simp [readPrimary, hread, hconnectives]

theorem readTree_sound (depth : Nat) : Sound (.chain .or) depth (readTree stop depth) := by
  induction depth with
  | zero => exact chain_sound (chain_sound (readPrimary_sound (by simp)))
  | succ depth ih =>
    refine chain_sound (chain_sound (readPrimary_sound ?_))
    intro reader h
    cases h
    exact ⟨depth, rfl, ih⟩

theorem readTree_complete (depth : Nat) : Complete (.chain .or) depth (readTree stop depth) := by
  induction depth with
  | zero => exact chain_complete (chain_complete (readPrimary_complete (by simp)))
  | succ depth ih =>
    refine chain_complete (chain_complete (readPrimary_complete ?_))
    intro d h
    cases h
    exact ⟨_, rfl, ih⟩

theorem ne_nil_of_derives {level : Level} {ks : List TokenKind} {t : Filter} (h : Derives level ks t) :
    ks ≠ [] := by
  induction h with
  | compare | startsWith | substringOf | group => simp
  | single _ ih => exact ih
  | join => simp

theorem ofTokens_eq_ok_iff {ts : List Token} {t : Filter} :
    ofTokens stop ts = .ok t ↔ Sentence (kinds ts) t := by
  constructor
  · intro h
    unfold ofTokens at h
    split at h
    · cases h
    · obtain ⟨all, hall, hend⟩ := bind_eq_ok.mp h
      obtain ⟨used, hused, hderives, hnesting, hspare⟩ := readTree_sound _ _ _ _ hall
      split at hend
      · rename_i hrest
        cases hend
        rw [hrest, List.append_nil] at hused
        subst hused
        refine ⟨hderives, hnesting, ?_⟩
        simp only [connectiveMax] at hspare
        omega
      · cases hend
  · rintro ⟨hderives, hnesting, hconnectives⟩
    have hne : ts.isEmpty = false := by
      cases ts with
      | nil => exact absurd rfl (ne_nil_of_derives hderives)
      | cons => rfl
    have hread : readTree stop depthMax connectiveMax (ts ++ []) = _ :=
      readTree_complete depthMax ts t hderives hnesting connectiveMax [] hconnectives ⟨rfl, rfl⟩
    rw [List.append_nil] at hread
    simp [ofTokens, hne, hread]

/-- The grammar is unambiguous: a reader with room enough for both trees returns each of them. -/
theorem Derives.unique {ks : List TokenKind} {t t' : Filter} (h : Derives (.chain .or) ks t)
    (h' : Derives (.chain .or) ks t') : t = t' := by
  let ts : List Token := ks.map fun k => ⟨k, 0⟩
  have hkinds : kinds ts = ks := by simp [ts, kinds, Function.comp_def]
  let depth := max t.nesting t'.nesting
  let spare := max t.connectives t'.connectives
  have hread : readTree 0 depth spare (ts ++ []) = _ :=
    readTree_complete depth ts t (hkinds ▸ h) (by omega) spare [] (by omega) ⟨rfl, rfl⟩
  have hread' : readTree 0 depth spare (ts ++ []) = _ :=
    readTree_complete depth ts t' (hkinds ▸ h') (by omega) spare [] (by omega) ⟨rfl, rfl⟩
  have heq := Except.ok.inj (hread.symm.trans hread')
  exact congrArg Progress.tree heq

theorem matchParens_eq_ok_iff {ts kept : List Token} :
    matchParens ts = .ok kept ↔ AllOpened (kinds ts) ∧ kept = (keepClosed ts).1 := by
  rw [← unmatchedClose?_eq_none_iff, matchParens]
  split <;> rename_i h <;> simp [h, eq_comm]

/-- A text is read as a tree exactly when its tokens, without the opening parentheses that are never closed, are a
sentence of the grammar for that tree; and the grammar gives no tokens two trees. -/
theorem parse_eq_ok_iff (text : String) (t : Filter) :
    (parse text = .ok t ↔
      ∃ ts kept, tokens text = .ok ts ∧ AllOpened (kinds ts) ∧ DropsUnclosed (kinds ts) kept ∧ kept ≠ [] ∧
        Sentence kept t) ∧
    ∀ kept t', Derives (.chain .or) kept t → Derives (.chain .or) kept t' → t' = t := by
  refine ⟨?_, fun kept t' h h' => h'.unique h⟩
  simp only [parse, bind_eq_ok, matchParens_eq_ok_iff, ofTokens_eq_ok_iff]
  constructor
  · rintro ⟨ts, hts, _, ⟨hopened, rfl⟩, hsentence⟩
    exact ⟨ts, _, hts, hopened, dropsUnclosed_keepClosed ts, ne_nil_of_derives hsentence.derives, hsentence⟩
  · rintro ⟨ts, kept, hts, hopened, hdrops, _, hsentence⟩
    obtain rfl := dropsUnclosed_iff.mp hdrops
    exact ⟨ts, hts, _, ⟨hopened, rfl⟩, hsentence⟩

end EntityStore.Filter
