import EntityStore.Proofs.Filter.Reading
import EntityStore.Proofs.Query.Meaning
import EntityStore.Query.Planning

/-!
# Compiled filters

The condition that a filter compiles to holds of exactly the entities that the filter is about; keywords and the
anchor of the options narrow it down. Main statement: `holds_build_iff`.
-/
namespace EntityStore

variable {stringMax : Nat} {e : Entity} {field : String}

/-! ## Tests of single values -/

namespace Predicate

theorem anyValue_iff {test : Json → Bool} :
    anyValue e field test = true ↔ ∃ value ∈ e.elements field, test value = true := by
  cases hvalue : e.field? field with
  | none => simp [anyValue, Entity.elements, hvalue]
  | some value => cases value <;> simp [anyValue, Entity.elements, hvalue]

theorem isIndexed_iff {value : Json} :
    isIndexed stringMax value = true ↔ ∀ s, value = .string s → s.length ≤ stringMax := by
  cases value <;> simp [isIndexed]

theorem isMissing_iff : isMissing e field = true ↔ e.Lacks field := by
  unfold isMissing Entity.Lacks
  split <;> simp_all

/-- A bound that lies beyond on one side is met by the order of that side, and by equality if it is inclusive. -/
theorem satisfies_iff {value bound : Json} {beyond : Ordering} {inclusive : Bool} (hbeyond : beyond ≠ .eq) :
    satisfies value beyond (some ⟨bound, inclusive⟩) = true ↔
      ∃ order, value.compare? bound = some order ∧ (order = beyond ∨ (inclusive = true ∧ order = .eq)) := by
  cases hcompare : value.compare? bound with
  | none => simp [satisfies, hcompare]
  | some order =>
    cases order with
    | eq => simp [satisfies, hcompare, hbeyond.symm]
    | lt | gt => simp [satisfies, hcompare]

/-- A list contains a word if one of its items does, whatever that means for an item. -/
theorem anyContainsWord_iff {word : List Char} {items : List Json} {P : Json → Prop}
    (h : ∀ item ∈ items, containsWord word item = true ↔ P item) :
    containsWord.anyContainsWord word items = true ↔ ∃ item ∈ items, P item := by
  induction items with
  | nil => simp [containsWord.anyContainsWord]
  | cons item rest ih =>
    obtain ⟨hitem, hrest⟩ := List.forall_mem_cons.mp h
    rw [containsWord.anyContainsWord, Bool.or_eq_true, hitem, ih hrest, List.exists_mem_cons_iff]

theorem containsWord_iff (word : List Char) (value : Json) :
    containsWord word value = true ↔ ∃ s, value.HasString s ∧ word <:+: Text.lower s.toList := by
  cases value with
  | string s =>
    rw [containsWord, Text.occursIn_iff]
    constructor
    · exact fun h => ⟨s, .self s, h⟩
    · rintro ⟨_, ⟨⟩, h⟩
      exact h
  | array items =>
    rw [containsWord, anyContainsWord_iff fun item _ => containsWord_iff word item]
    constructor
    · rintro ⟨item, hmem, s, hs, h⟩
      exact ⟨s, .item hmem hs, h⟩
    · rintro ⟨s, hs, h⟩
      cases hs with
      | item hmem hs => exact ⟨_, hmem, s, hs, h⟩
  | null | bool | number | object =>
    simp only [containsWord, Bool.false_eq_true, false_iff]
    rintro ⟨_, ⟨⟩, _⟩

theorem allHold_iff {clauses : List Predicate} :
    allHold stringMax e clauses = true ↔ ∀ clause ∈ clauses, holds stringMax e clause = true := by
  induction clauses with
  | nil => simp [allHold]
  | cons clause rest ih => simp [allHold, ih]

theorem anyHolds_iff {clauses : List Predicate} :
    anyHolds stringMax e clauses = true ↔ ∃ clause ∈ clauses, holds stringMax e clause = true := by
  induction clauses with
  | nil => simp [anyHolds]
  | cons clause rest ih => simp [anyHolds, ih]

theorem holds_not_iff {inner : Predicate} :
    holds stringMax e (.not inner) = true ↔ ¬ holds stringMax e inner = true := by
  simp [holds]

end Predicate

namespace Filter

/-! ## Comparisons -/

/-- Only values of the kind of an operand compare with it. -/
theorem kind_of_compare? {value : Json} {operand : Operand} {order : Ordering}
    (h : value.compare? operand.toJson = some order) : value.kind = operand.kind := by
  cases operand with
  | null => cases value <;> simp [Operand.toJson, Json.compare?] at h
  | double x =>
    simp only [Operand.toJson] at h
    split at h
    · cases value <;> simp_all [Json.compare?, Json.kind, Operand.kind]
    · cases value <;> simp [Json.compare?] at h
  | boolean | integer | string | dateTime =>
    cases value <;> simp_all [Operand.toJson, Json.ofInt, Json.compare?, Json.kind, Operand.kind]

theorem meets_iff {op : Comparator} {operand : Operand} {value : Json} :
    Meets stringMax op operand value ↔ Predicate.isIndexed stringMax value = true ∧
      ∃ order, value.compare? operand.toJson = some order ∧ op.Accepts order := by
  rw [Predicate.isIndexed_iff]
  constructor
  · rintro ⟨_, hindexed, hcompares⟩
    exact ⟨hindexed, hcompares⟩
  · rintro ⟨hindexed, order, hcompare, haccepts⟩
    exact ⟨kind_of_compare? hcompare, hindexed, order, hcompare, haccepts⟩

theorem comparison_ne (field : String) (operand : Operand) :
    comparison field .ne operand = .not (comparison field .eq operand) := by
  unfold comparison
  split <;> rfl

theorem holds_eq_iff {operand : Operand} :
    (comparison field .eq operand).holds stringMax e = true ↔ Equals stringMax e field operand := by
  by_cases hnull : operand = .null
  · simp [comparison, Equals, hnull, Predicate.holds, Predicate.isMissing_iff]
  have hempty : operand.toJson.asString? = some "" ↔ operand = .string "" := by
    cases operand with
    | double x =>
      simp only [Operand.toJson]
      split <;> simp [Json.asString?]
    | null | boolean | integer | string | dateTime => simp [Operand.toJson, Json.ofInt, Json.asString?]
  have hterm : comparison field .eq operand = .term field operand.toJson := by simp [comparison, hnull]
  rw [hterm, Equals, if_neg hnull, Predicate.holds, Bool.and_eq_true, bne_iff_ne, ne_eq, hempty]
  by_cases hstring : operand = .string ""
  · simp [hstring]
  · simp [hstring, Predicate.anyValue_iff, meets_iff, Comparator.Accepts]

/-- A range with one end. -/
theorem holds_range_iff {op : Comparator} {operand : Operand} (hop : op.isOrdering = true) (hnull : operand ≠ .null) :
    (comparison field op operand).holds stringMax e = true ↔
      ∃ value ∈ e.elements field, Meets stringMax op operand value := by
  have hnone : ∀ value beyond, Predicate.satisfies value beyond none = true := fun _ _ => rfl
  have hgt : Ordering.gt ≠ .eq := by decide
  have hlt : Ordering.lt ≠ .eq := by decide
  cases op with
  | eq | ne => cases hop
  | gt | ge | lt | le =>
    simp only [comparison, hnull, if_false, Predicate.holds, Predicate.anyValue_iff, Bool.and_eq_true, hnone,
      and_true, Predicate.satisfies_iff hgt, Predicate.satisfies_iff hlt, meets_iff, Comparator.Accepts]
    simp

theorem holds_comparison_iff {op : Comparator} {operand : Operand} (h : op.isOrdering = true → operand ≠ .null) :
    (comparison field op operand).holds stringMax e = true ↔ Compares stringMax e field op operand := by
  cases op with
  | eq => exact holds_eq_iff
  | ne => rw [comparison_ne, Predicate.holds_not_iff, holds_eq_iff, Compares]
  | gt | ge | lt | le => exact holds_range_iff rfl (h rfl)

/-! ## Calls -/

theorem asString?_any_iff {value : Json} {test : String → Bool} :
    value.asString?.any test = true ↔ ∃ s, value = .string s ∧ test s = true := by
  cases value <;> simp [Json.asString?]

theorem holds_startsWith_iff {text : String} :
    (Predicate.startsWith field text).holds stringMax e = true ↔ Passes stringMax e field text .startsWith := by
  simp only [Predicate.holds, Predicate.anyValue_iff, Bool.and_eq_true, asString?_any_iff, Predicate.isIndexed_iff,
    List.isPrefixOf_iff_prefix]
  constructor
  · rintro ⟨value, hmem, hindexed, s, rfl, hpre⟩
    exact ⟨s, hmem, hindexed s rfl, hpre⟩
  · rintro ⟨s, hmem, hlength, hpre⟩
    exact ⟨.string s, hmem, by rintro _ ⟨⟩; exact hlength, s, rfl, hpre⟩

theorem holds_contains_iff {text : String} :
    (Predicate.contains field text).holds stringMax e = true ↔ Passes stringMax e field text .substringOf := by
  have hempty : (!text.isEmpty) = true ↔ text ≠ "" := by simp
  simp only [Predicate.holds, Predicate.anyValue_iff, Bool.and_eq_true, asString?_any_iff, Text.occursIn_iff, hempty]
  constructor
  · rintro ⟨hne, value, hmem, s, rfl, hpart⟩
    exact ⟨hne, s, hmem, hpart⟩
  · rintro ⟨hne, s, hmem, hpart⟩
    exact ⟨hne, .string s, hmem, s, rfl, hpart⟩

end Filter

/-! ## Filters -/

namespace TypedFilter

/-- No comparison asks for an order with null. -/
def OrdersValues : TypedFilter → Prop
  | compare _ op operand => op.isOrdering = true → operand ≠ .null
  | test _ _ _ => True
  | join _ left right => left.OrdersValues ∧ right.OrdersValues
  | group inner => inner.OrdersValues

theorem holds_predicate_iff {f : TypedFilter} (h : f.OrdersValues) :
    f.predicate.holds stringMax e = true ↔ f.Means stringMax e := by
  induction f with
  | compare property op operand => exact Filter.holds_comparison_iff h
  | test call property text =>
    cases call with
    | startsWith => exact Filter.holds_startsWith_iff
    | substringOf => exact Filter.holds_contains_iff
  | join connective left right ihleft ihright =>
    cases connective with
    | and => simp [predicate, Means, Predicate.holds, Predicate.allHold_iff, ihleft h.1, ihright h.2]
    | or => simp [predicate, Means, Predicate.holds, Predicate.anyHolds_iff, ihleft h.1, ihright h.2]
  | group inner ih => exact ih h

end TypedFilter

namespace Filter

theorem coerce_ne_null {property : PropertyUse} {operator : String} {literal : Literal} {operand : Operand}
    (h : coerce property operator literal = .ok operand) (hliteral : literal.isNull = false) : operand ≠ .null := by
  cases literal with
  | null => cases hliteral
  | single | decimal => cases h
  | boolean | string =>
    simp only [coerce] at h
    split at h
    · cases h
      simp
    · cases h
  | dateTime | dateTimeOffset =>
    simp only [coerce] at h
    split_ifs at h
    cases h
    simp
  | integer | long | double =>
    simp only [coerce] at h
    split at h <;> try split_ifs at h
    all_goals cases h
    all_goals simp_all

/-- No comparison of the text asks for an order with null. -/
def OrdersValues : Filter → Prop
  | compare _ op operand => op.isOrdering = true → operand.isNull = false
  | test _ _ _ => True
  | join _ left right => left.OrdersValues ∧ right.OrdersValues
  | group inner => inner.OrdersValues

theorem ordersValues_of_derives {level : Level} {ks : List TokenKind} {t : Filter} (h : Derives level ks t) :
    t.OrdersValues := by
  induction h with
  | compare _ _ _ ordered => exact fun hop => (ordered hop).1
  | startsWith | substringOf => trivial
  | group _ ih | single _ ih => exact ih
  | join _ _ ih ih' => exact ⟨ih, ih'⟩

theorem ordersValues_of_typed {schema : Schema} {entityType : String} {t : Filter} {f : TypedFilter}
    (h : t.typed schema entityType = .ok f) (hvalues : t.OrdersValues) : f.OrdersValues := by
  induction t generalizing f with
  | compare name op literal =>
    simp only [typed, bind_eq_ok] at h
    obtain ⟨property, _, h⟩ := h
    split at h
    · cases h
    · simp only [bind_eq_ok, pure_eq_ok] at h
      obtain ⟨operand, hcoerce, rfl⟩ := h
      exact fun hop => coerce_ne_null hcoerce (hvalues hop)
  | test kind name literal =>
    simp only [typed, bind_eq_ok] at h
    obtain ⟨property, _, h⟩ := h
    split at h
    · cases h; trivial
    · cases h
  | join connective left right ihleft ihright =>
    simp only [typed, bind_eq_ok, pure_eq_ok] at h
    obtain ⟨left', hleft, right', hright, rfl⟩ := h
    exact ⟨ihleft hleft hvalues.1, ihright hright hvalues.2⟩
  | group inner ih =>
    simp only [typed, bind_eq_ok, pure_eq_ok] at h
    obtain ⟨inner', hinner, rfl⟩ := h
    have hvalues' := ih hinner hvalues
    exact hvalues'

end Filter

/-! ## Queries -/

theorem holds_keyword_iff {word : String} :
    (Predicate.keyword word).holds stringMax e = true ↔ e.Mentions word := by
  simp only [Predicate.holds, List.any_eq_true, Predicate.containsWord_iff, Entity.Mentions]

theorem holds_conjunction_iff {clauses : List Predicate} :
    (StoreQuery.conjunction clauses).holds stringMax e = true ↔
      ∀ clause ∈ clauses, clause.holds stringMax e = true := by
  match clauses with
  | [] => simp [StoreQuery.conjunction, Predicate.holds]
  | [clause] => simp [StoreQuery.conjunction]
  | first :: second :: rest => simp [StoreQuery.conjunction, Predicate.holds, Predicate.allHold_iff]

theorem ordersValues_of_read {schema : Schema} {entityType text : String} {f : TypedFilter}
    (h : TypedFilter.read schema entityType text = .ok f) : f.OrdersValues := by
  simp only [TypedFilter.read, bind_eq_ok, mapError_eq_ok] at h
  obtain ⟨t, hparse, htyped⟩ := h
  simp only [Filter.parse, bind_eq_ok, Filter.ofTokens_eq_ok_iff] at hparse
  obtain ⟨_, _, ts, _, hsentence⟩ := hparse
  exact Filter.ordersValues_of_typed htyped (Filter.ordersValues_of_derives hsentence.derives)

/-- The query for a filter and options finds the entities that the filter means, that mention every keyword and
that are linked with the anchor. -/
theorem holds_build_iff {schema : Schema} {entityType text : String} {f : TypedFilter}
    (h : TypedFilter.read schema entityType text = .ok f) (o : QueryOptions) (stringMax : Nat) (e : Entity) :
    (StoreQuery.build (some f) o).predicate.holds stringMax e = true ↔
      f.Means stringMax e ∧ (∀ word ∈ o.keywords, e.Mentions word) ∧
        ∀ key, o.anchor = some key → e.links.contains key = true := by
  have hfilter : f.predicate.holds stringMax e = true ↔ f.Means stringMax e :=
    TypedFilter.holds_predicate_iff (ordersValues_of_read h)
  have hlinked : ∀ key, (Predicate.linkedTo key).holds stringMax e = true ↔ e.links.contains key = true := by
    intro key
    rw [Predicate.holds]
  rw [StoreQuery.build, holds_conjunction_iff, ← hfilter]
  simp only [Option.map_some, Option.toList_some, List.mem_append, List.mem_singleton, List.mem_map,
    Option.mem_toList, Option.map_eq_some_iff, or_imp, forall_and, forall_eq, forall_exists_index, and_imp,
    forall_apply_eq_imp_iff₂, holds_keyword_iff, hlinked, and_assoc]

/-- A list meets an ordering by one of its elements, here next to a keyword. -/
theorem holds_build_some_element :
    ∃ f, TypedFilter.read (Schema.empty.register ((EntityType.named "Sales").declare (.declared "Sales" "count" .int32)))
        "Sales" "count ge 5" = .ok f ∧
      (StoreQuery.build (some f) ⟨"Sales", 10, 0, [], [], .all, false, ["RED"], none⟩).predicate.holds 100
        ⟨⟨"Sales", "s1"⟩, .ofList [("colour", .string "Red"), ("count", .array [.ofInt 2, .ofInt 7])], 0, 0, 1,
          .empty, 1⟩ = true := by
  let schema := Schema.empty.register ((EntityType.named "Sales").declare (.declared "Sales" "count" .int32))
  let f : TypedFilter := .compare ⟨"count", .int32, .int32, .scalar⟩ .ge (.integer 5)
  have hparse : Filter.parse "count ge 5" = .ok (.compare "count" .ge (.integer 5)) := by decide +kernel
  have htyped : Filter.typed schema "Sales" (.compare "count" .ge (.integer 5)) = .ok f := by decide
  have hread : TypedFilter.read schema "Sales" "count ge 5" = .ok f := by
    simp [TypedFilter.read, hparse, htyped]
  refine ⟨f, hread, (holds_build_iff hread _ _ _).mpr ⟨?_, ?_, ?_⟩⟩
  · have hmem : Json.ofInt 7 ∈ [Json.ofInt 2, .ofInt 7] := List.mem_cons_of_mem _ (List.mem_singleton_self _)
    exact ⟨.ofInt 7, hmem, rfl, (by rintro _ ⟨⟩), .gt, rfl, .inl rfl⟩
  · have hmem : Json.string "Red" ∈ [Json.string "Red", .array [.ofInt 2, .ofInt 7]] := List.mem_cons_self
    intro word hword
    obtain rfl := List.mem_singleton.mp hword
    exact ⟨.string "Red", hmem, "Red", .self _, by decide⟩
  · rintro _ ⟨⟩

end EntityStore
