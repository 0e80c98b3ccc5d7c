import EntityStore.Proofs.Filter.Printing
import EntityStore.Proofs.Query.Compilation

/-!
# Combined filters

Two filter texts, each put in parentheses, with a connective between them. Neither text reaches into the other: the
whole is read as the two trees joined, fits an entity type exactly when both do, and finds what both find, or what
either does. Main statement: `parse_combined_and_hits_iff`.
-/
namespace EntityStore

namespace Filter

/-- Two texts in parentheses with a connective between them. -/
def combined (c : Connective) (f g : String) : String := "(" ++ f ++ ") " ++ c.word ++ " (" ++ g ++ ")"

/-- What a connective makes of two statements. -/
def Connective.Joins : Connective → Prop → Prop → Prop
  | and, p, q => p ∧ q
  | or, p, q => p ∨ q

/-- Every opening parenthesis among the tokens of a text has its closing one. -/
def ClosesAll (text : String) : Prop := ∀ ts, tokens text = .ok ts → AllClosed (kinds ts)

variable {c : Connective} {f g : String} {t u : Filter} {ks ls : List TokenKind}

/-! ## Reading -/

/-- A text in which all parentheses are closed is read from all of its tokens. -/
theorem exists_balanced_of_parse (h : parse f = .ok t) (hclosed : ClosesAll f) :
    ∃ ks, Lexes f.toList ks ∧ Balanced ks ∧ Sentence ks t := by
  simp only [parse, bind_eq_ok, matchParens_eq_ok_iff, ofTokens_eq_ok_iff] at h
  obtain ⟨ts, hts, _, ⟨hopened, rfl⟩, hsentence⟩ := h
  have hbalanced : Balanced (kinds ts) := balanced_iff.mpr ⟨hopened, hclosed ts hts⟩
  rw [keepClosed_of_balanced hbalanced] at hsentence
  exact ⟨_, .of_tokensFrom hts, hbalanced, hsentence⟩

theorem closesAll_of_balanced (hkinds : (tokens f).map kinds = .ok ks) (h : Balanced ks) : ClosesAll f := by
  intro ts hts
  rw [hts] at hkinds
  rw [Except.ok.inj hkinds]
  exact allClosed_of_balanced h

theorem toList_combined (c : Connective) (f g : String) :
    (combined c f g).toList =
      ('(' :: (f.toList ++ [')'])) ++ ' ' :: (c.word.toList ++ ' ' :: ('(' :: (g.toList ++ [')']))) := by
  have hclose : ") ".toList = [')', ' '] := rfl
  have hopen : " (".toList = [' ', '('] := rfl
  simp [combined, hclose, hopen]

theorem lexes_combined (hf : Lexes f.toList ks) (hg : Lexes g.toList ls) :
    Lexes (combined c f g).toList ((TokenKind.openParen :: (ks ++ [TokenKind.closeParen])) ++
      ([TokenKind.word c.word] ++ TokenKind.openParen :: (ls ++ [TokenKind.closeParen]))) := by
  have hword : IsWord c.word.toList := by
    cases c with
    | and | or => exact ⟨by decide, List.all_eq_true.mp (by decide)⟩
  rw [toList_combined]
  exact hf.parenthesized.spaced ((lexes_string hword).spaced hg.parenthesized)

theorem derives_groups (hf : Derives (.chain .or) ks t) (hg : Derives (.chain .or) ls u) :
    Derives (.chain .or) ((TokenKind.openParen :: (ks ++ [TokenKind.closeParen])) ++
      TokenKind.word c.word :: TokenKind.openParen :: (ls ++ [TokenKind.closeParen]))
      (.join c (.group t) (.group u)) := by
  have hfgroup : Derives .operand (.openParen :: (ks ++ [TokenKind.closeParen])) (.group t) := .group hf
  have hggroup : Derives .operand (.openParen :: (ls ++ [TokenKind.closeParen])) (.group u) := .group hg
  cases c with
  | and => exact .single (.join (.single hfgroup) hggroup)
  | or => exact .join (.single (.single hfgroup)) (.single hggroup)

theorem parse_combined (hf : parse f = .ok t) (hg : parse g = .ok u) (hfclosed : ClosesAll f)
    (hgclosed : ClosesAll g) (hfnesting : t.nesting ≤ 63) (hgnesting : u.nesting ≤ 63)
    (hconnectives : t.connectives + u.connectives ≤ 255) :
    parse (combined c f g) = .ok (.join c (.group t) (.group u)) := by
  obtain ⟨ks, hflexes, hfbalanced, hfsentence⟩ := exists_balanced_of_parse hf hfclosed
  obtain ⟨ls, hglexes, hgbalanced, hgsentence⟩ := exists_balanced_of_parse hg hgclosed
  refine parse_of_balanced (lexes_combined hflexes hglexes) ?_
    ⟨derives_groups hfsentence.derives hgsentence.derives, ?_, ?_⟩
  · exact hfbalanced.parenthesized.append (.skip (by simp) (by simp) hgbalanced.parenthesized)
  · simp only [nesting]
    omega
  · simp only [connectives]
    omega

/-! ## Typing -/

theorem typed_groups_iff {schema : Schema} {type : String} {r : TypedFilter} :
    typed schema type (.join c (.group t) (.group u)) = .ok r ↔
      ∃ a b, typed schema type t = .ok a ∧ typed schema type u = .ok b ∧ r = .join c (.group a) (.group b) := by
  simp only [typed, bind_eq_ok, pure_eq_ok]
  constructor
  · rintro ⟨_, ⟨a, ha, rfl⟩, _, ⟨b, hb, rfl⟩, rfl⟩
    exact ⟨a, b, ha, hb, rfl⟩
  · rintro ⟨a, b, ha, hb, rfl⟩
    exact ⟨_, ⟨a, ha, rfl⟩, _, ⟨b, hb, rfl⟩, rfl⟩

end Filter

open EntityStore.Filter

theorem TypedFilter.read_eq_ok_iff {schema : Schema} {type text : String} {t : Filter}
    (hparse : Filter.parse text = .ok t) {r : TypedFilter} :
    TypedFilter.read schema type text = .ok r ↔ t.typed schema type = .ok r := by
  simp [TypedFilter.read, hparse, mapError_eq_ok]

/-! ## Finding -/

variable {c : Connective} {a b : TypedFilter} {s : Entities} {stringMax : Nat} {o : QueryOptions} {e : Entity}

theorem holds_join_groups_iff :
    (TypedFilter.join c (.group a) (.group b)).predicate.holds stringMax e = true ↔
      c.Joins (a.predicate.holds stringMax e = true) (b.predicate.holds stringMax e = true) := by
  cases c with
  | and => simp [TypedFilter.predicate, Predicate.holds, Predicate.allHold_iff, Connective.Joins]
  | or => simp [TypedFilter.predicate, Predicate.holds, Predicate.anyHolds_iff, Connective.Joins]

/-- An entity is found by its filter, apart from what the options ask for. -/
theorem mem_hits_build_iff :
    e ∈ s.hits stringMax o.entityType (StoreQuery.build (some a) o).predicate ↔
      a.predicate.holds stringMax e = true ∧
        e ∈ s.hits stringMax o.entityType (StoreQuery.build none o).predicate := by
  simp only [Entities.hits, List.mem_filter, Bool.and_eq_true, StoreQuery.build, holds_conjunction_iff,
    Option.map_some, Option.map_none, Option.toList_some, Option.toList_none, List.cons_append, List.nil_append,
    List.forall_mem_cons]
  constructor
  · rintro ⟨hmem, htype, hfilter, hothers⟩
    exact ⟨hfilter, hmem, htype, hothers⟩
  · rintro ⟨hfilter, hmem, htype, hothers⟩
    exact ⟨hmem, htype, hfilter, hothers⟩

theorem mem_hits_join_groups_iff :
    e ∈ s.hits stringMax o.entityType (StoreQuery.build (some (.join c (.group a) (.group b))) o).predicate ↔
      c.Joins (e ∈ s.hits stringMax o.entityType (StoreQuery.build (some a) o).predicate)
        (e ∈ s.hits stringMax o.entityType (StoreQuery.build (some b) o).predicate) := by
  rw [mem_hits_build_iff, holds_join_groups_iff, mem_hits_build_iff, mem_hits_build_iff]
  cases c with
  | and => exact and_and_right
  | or => exact or_and_right

/-- Two filter texts are combined that are read, in which all parentheses are closed, and which leave room for one
more group and one more connective. The whole is read as the two trees joined, and fits an entity type exactly when
both do. On every store and with all options, the query for the whole then finds what both queries find, or what
either of them does. -/
theorem parse_combined_and_hits_iff (c : Connective) (f g : String) (t u : Filter) (hf : Filter.parse f = .ok t)
    (hg : Filter.parse g = .ok u) (hfclosed : ClosesAll f) (hgclosed : ClosesAll g) (hfnesting : t.nesting ≤ 63)
    (hgnesting : u.nesting ≤ 63) (hconnectives : t.connectives + u.connectives ≤ 255) :
    Filter.parse (combined c f g) = .ok (.join c (.group t) (.group u)) ∧
      (∀ schema type, (∃ r, TypedFilter.read schema type (combined c f g) = .ok r) ↔
        (∃ a, TypedFilter.read schema type f = .ok a) ∧ ∃ b, TypedFilter.read schema type g = .ok b) ∧
      ∀ schema type a b r, TypedFilter.read schema type f = .ok a → TypedFilter.read schema type g = .ok b →
        TypedFilter.read schema type (combined c f g) = .ok r → ∀ (s : Entities) (stringMax : Nat) (o : QueryOptions)
          (e : Entity), e ∈ s.hits stringMax o.entityType (StoreQuery.build (some r) o).predicate ↔
            c.Joins (e ∈ s.hits stringMax o.entityType (StoreQuery.build (some a) o).predicate)
              (e ∈ s.hits stringMax o.entityType (StoreQuery.build (some b) o).predicate) := by
  have hparse : Filter.parse (combined c f g) = .ok (.join c (.group t) (.group u)) :=
    parse_combined hf hg hfclosed hgclosed hfnesting hgnesting hconnectives
  simp only [TypedFilter.read_eq_ok_iff hf, TypedFilter.read_eq_ok_iff hg, TypedFilter.read_eq_ok_iff hparse,
    typed_groups_iff]
  refine ⟨hparse, fun schema type => ?_, ?_⟩
  · constructor
    · rintro ⟨_, a, b, ha, hb, _⟩
      exact ⟨⟨a, ha⟩, b, hb⟩
    · rintro ⟨⟨a, ha⟩, b, hb⟩
      exact ⟨_, a, b, ha, hb, rfl⟩
  · rintro schema type a b _ ha hb ⟨a', b', ha', hb', rfl⟩ s stringMax o e
    obtain rfl := Except.ok.inj (ha.symm.trans ha')
    obtain rfl := Except.ok.inj (hb.symm.trans hb')
    exact mem_hits_join_groups_iff

theorem parse_combined_quoted_paren :
    ∃ t u, Filter.parse "a eq \x27(\x27 and b gt 1" = .ok t ∧ Filter.parse "(c eq true)" = .ok u ∧
      Filter.parse "(a eq \x27(\x27 and b gt 1) or ((c eq true))" = .ok (.join .or (.group t) (.group u)) := by
  let t : Filter := .join .and (.compare "a" .eq (.string "(")) (.compare "b" .gt (.integer 1))
  let u : Filter := .group (.compare "c" .eq (.boolean true))
  have ht : Filter.parse "a eq \x27(\x27 and b gt 1" = .ok t := by decide +kernel
  have hu : Filter.parse "(c eq true)" = .ok u := by decide +kernel
  have htclosed : ClosesAll "a eq \x27(\x27 and b gt 1" := by
    have hkinds : (tokens "a eq \x27(\x27 and b gt 1").map kinds = .ok [.word "a", .word "eq", .quoted "(",
      .word "and", .word "b", .word "gt", .word "1"] := by decide +kernel
    exact closesAll_of_balanced hkinds (balanced_of_plain (by decide))
  have huclosed : ClosesAll "(c eq true)" := by
    have hkinds : (tokens "(c eq true)").map kinds =
      .ok (.openParen :: ([TokenKind.word "c", .word "eq", .word "true"] ++ [TokenKind.closeParen])) := by
      decide +kernel
    exact closesAll_of_balanced hkinds (balanced_of_plain (by decide)).parenthesized
  exact ⟨t, u, ht, hu,
    (parse_combined_and_hits_iff .or _ _ t u ht hu htclosed huclosed (by decide) (by decide) (by decide)).1⟩

end EntityStore
