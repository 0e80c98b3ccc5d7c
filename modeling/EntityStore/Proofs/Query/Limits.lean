import EntityStore.Proofs.Except
import EntityStore.Proofs.Schema.Built
import EntityStore.Query.Options
import EntityStore.Text.Utf8
import Mathlib.Data.List.Nodup

/-!
# Options within the limits

Whatever the texts of a request are, and whatever the limits, the options that are read keep to the limits. Main
statement: `QueryOptions.within_of_read`.
-/
namespace EntityStore

namespace Text

/-! ## The length of words -/

theorem byteLength_reverse (cs : List Char) : byteLength cs.reverse = byteLength cs := by
  induction cs with
  | nil => rfl
  | cons c cs ih =>
    rw [List.reverse_cons, byteLength_append, ih, byteLength_cons, byteLength_cons, byteLength_nil, Nat.add_zero,
      Nat.add_comm]

theorem byteLength_wordsFrom_le (word cs : List Char) :
    byteLength (wordsFrom word cs).flatten ≤ byteLength word + byteLength cs := by
  induction cs generalizing word with
  | nil =>
    simp only [wordsFrom]
    split <;> simp [byteLength_reverse]
  | cons c cs ih =>
    have hopen := ih (c :: word)
    have hclosed := ih []
    rw [byteLength_cons] at hopen
    rw [byteLength_nil] at hclosed
    simp only [wordsFrom, byteLength_cons]
    split
    · split
      · omega
      · rw [List.flatten_cons, byteLength_append, byteLength_reverse]
        omega
    · omega

/-- The words of a text are together no longer than the text. -/
theorem byteLength_words_le (s : String) : byteLength ((words s).flatMap String.toList) ≤ s.utf8ByteSize := by
  have hwords := byteLength_wordsFrom_le [] s.toList
  have hchars : (words s).flatMap String.toList = (wordsFrom [] s.toList).flatten := by
    simp only [words, List.flatMap_map, String.toList_ofList, List.flatMap_id']
  have htext : s.utf8ByteSize = byteLength s.toList := by rw [← utf8ByteSize_ofList, String.ofList_toList]
  rw [byteLength_nil, Nat.zero_add] at hwords
  rw [hchars, htext]
  exact hwords

end Text

/-! ## Items taken up once -/

theorem nodup_take_up {names : List String} (h : names.Nodup) (item : String) :
    (if names.contains item then names else names ++ [item]).Nodup := by
  split
  · exact h
  · rename_i hnew
    rw [← List.concat_eq_append]
    exact h.concat (by simpa using hnew)

theorem mem_take_up {names : List String} {item name : String}
    (h : name ∈ if names.contains item then names else names ++ [item]) : name ∈ names ∨ name = item := by
  split at h
  · exact .inl h
  · simpa using h

namespace QueryOptions

/-- A name that a filter, an order or a selection can use. -/
structure IsQueryable (name : String) : Prop where
  valid : Name.isValid name = true
  notReserved : Name.isReserved name = false
  notNavigation : Name.isNavigation name = false

/-- Expansions of distinct navigations of a type, not too many. -/
structure ExpandsWithin (schema : Schema) (limits : QueryLimits) (type : String) (xs : List Expansion) : Prop where
  length : xs.length ≤ limits.expandMax
  distinct : (xs.map Expansion.navigation).Nodup
  pageSize : ∀ x ∈ xs, x.top = limits.expandPageSize
  registered : ∀ x ∈ xs, ∃ n, schema.navigation? type x.navigation = some n ∧ x.target = n.target

/-- Words that are not too long together. -/
structure WordsWithin (max : Nat) (words : List String) : Prop where
  nonempty : ∀ word ∈ words, word ≠ ""
  notBlank : ∀ word ∈ words, ∀ c ∈ word.toList, Text.isBlank c = false
  size : Text.byteLength (words.flatMap String.toList) ≤ max

/-- Everything, or distinct fields. -/
def SelectsWithin : Selection → Prop
  | .all => True
  | .fields names => names.Nodup ∧ ∀ name ∈ names, IsQueryable name

/-- Options that keep to the limits. -/
structure Within (schema : Schema) (limits : QueryLimits) (type : String) (o : QueryOptions) : Prop where
  top : o.top ≤ if o.expand.isEmpty then limits.topMax else limits.expandTopMax
  skip : o.skip ≤ limits.skipMax
  expand : ExpandsWithin schema limits type o.expand
  orderBy : ∀ key ∈ o.orderBy, IsQueryable key.property
  select : SelectsWithin o.select
  keywords : WordsWithin limits.keywordMax o.keywords

variable {schema : Schema} {limits : QueryLimits} {type name text : String} {r : Request} {o : QueryOptions}

theorem isQueryable_iff : Name.isQueryable name = true ↔ IsQueryable name := by
  simp only [Name.isQueryable, Bool.and_eq_true, Bool.not_eq_true']
  constructor
  · rintro ⟨⟨hvalid, hreserved⟩, hnavigation⟩
    exact ⟨hvalid, hreserved, hnavigation⟩
  · intro h
    exact ⟨⟨h.valid, h.notReserved⟩, h.notNavigation⟩

/-! ## Readers -/

theorem optional_cases {α : Type} {standard a : α} {read : String → Except QueryError α} {text? : Option String}
    (h : optional standard read text? = .ok a) : standard = a ∨ ∃ text, read text = .ok a := by
  cases text? with
  | none => exact .inl (Except.ok.inj h)
  | some text => exact .inr ⟨text, h⟩

theorem le_of_readPage {option : PageOption} {max n : Nat} (h : readPage option max text = .ok n) : n ≤ max := by
  unfold readPage at h
  split at h
  · cases h
  · split at h
    · rename_i hrange
      cases h
      simp only [Bool.and_eq_true, decide_eq_true_eq] at hrange
      omega
    · cases h

theorem nodup_of_distinctItems? {names : List String} (h : distinctItems? text = some names) : names.Nodup := by
  have hitems : ∀ (items seen : List String), seen.Nodup → items.foldlM (fun names item =>
      if item.isEmpty then none else some (if names.contains item then names else names ++ [item])) seen = some names →
      names.Nodup := by
    intro items
    induction items with
    | nil =>
      rintro seen hseen ⟨⟩
      exact hseen
    | cons item items ih =>
      intro seen hseen hfold
      rw [List.foldlM_cons] at hfold
      split at hfold
      · cases hfold
      · exact ih _ (nodup_take_up hseen item) hfold
  exact hitems _ [] List.nodup_nil h

theorem expansion_eq_ok_iff (hschema : schema.Navigable) {x : Expansion} :
    expansion schema type limits name = .ok x ↔
      ∃ n, schema.navigation? type name = some n ∧ x = ⟨name, n.target, limits.expandPageSize⟩ := by
  unfold expansion
  cases hn : schema.navigation? type name with
  | none => simp
  | some n => simp [(hschema type name n hn).1, eq_comm]

/-- The expansions are those of distinct names, one after the other. -/
theorem expandsWithin_of_read (hschema : schema.Navigable) {xs : List Expansion}
    (h : readExpand schema type limits text = .ok xs) : ExpandsWithin schema limits type xs := by
  unfold readExpand at h
  split at h
  · cases h
  rename_i names hnames
  split at h
  · cases h
  rename_i hcount
  have hmap : xs.map Expansion.navigation = names := by
    refine map_of_mapM (fun hx => ?_) h
    obtain ⟨n, _, rfl⟩ := (expansion_eq_ok_iff hschema).mp hx
    rfl
  have hlength : xs.length = names.length := by rw [← hmap, List.length_map]
  have hexpansion : ∀ x ∈ xs, ∃ name n, schema.navigation? type name = some n ∧
      x = ⟨name, n.target, limits.expandPageSize⟩ := by
    intro x hx
    obtain ⟨name, _, hread⟩ := (mem_of_mapM h).2 x hx
    exact ⟨name, (expansion_eq_ok_iff hschema).mp hread⟩
  refine ⟨by omega, hmap ▸ nodup_of_distinctItems? hnames, fun x hx => ?_, fun x hx => ?_⟩
  · obtain ⟨name, n, _, rfl⟩ := hexpansion x hx
    rfl
  · obtain ⟨name, n, hn, rfl⟩ := hexpansion x hx
    exact ⟨n, hn, rfl⟩

theorem isQueryable_of_readSortKey {item : String} {key : SortKey} (h : readSortKey text item = .ok key) :
    IsQueryable key.property := by
  unfold readSortKey at h
  split at h
  · cases h
  rename_i property modifiers _
  split at h
  · cases h
  rename_i hname
  simp only at h
  split at h
  · cases h
  split at h
  · cases h
  cases h
  exact isQueryable_iff.mp (by simpa using hname)

theorem isQueryable_of_readOrderBy {keys : List SortKey} (h : readOrderBy text = .ok keys) :
    ∀ key ∈ keys, IsQueryable key.property := by
  unfold readOrderBy at h
  split at h
  · cases h
  intro key hkey
  obtain ⟨item, _, hread⟩ := (mem_of_mapM h).2 key hkey
  exact isQueryable_of_readSortKey hread

theorem selectsWithin_of_selectFrom {items names : List String} {selection : Selection}
    (h : selectFrom names items = .ok selection) (hnodup : names.Nodup) (hnames : ∀ name ∈ names, IsQueryable name) :
    SelectsWithin selection := by
  induction items generalizing names with
  | nil =>
    cases h
    exact ⟨hnodup, hnames⟩
  | cons item items ih =>
    rw [selectFrom] at h
    split at h
    · cases h
      trivial
    split at h
    · cases h
    rename_i hitem
    refine ih h (nodup_take_up hnodup item) fun name hname => ?_
    rcases mem_take_up hname with hname | rfl
    · exact hnames name hname
    · exact isQueryable_iff.mp (by simpa using hitem)

theorem selectsWithin_of_read {selection : Selection} (h : readSelect text = .ok selection) :
    SelectsWithin selection := by
  unfold readSelect at h
  simp only at h
  split at h
  · cases h
  · exact selectsWithin_of_selectFrom h List.nodup_nil (List.forall_mem_nil _)

theorem wordsWithin_of_read {max : Nat} {words : List String} (h : readKeywords max text = .ok words) :
    WordsWithin max words := by
  unfold readKeywords at h
  split at h
  · cases h
  rename_i hlength
  cases h
  simp only [Bool.or_eq_true, decide_eq_true_eq, not_or, Nat.not_lt] at hlength
  exact ⟨fun _ => Text.words_ne_nil, fun _ => Text.not_isBlank_of_mem_words,
    Nat.le_trans (Text.byteLength_words_le text) hlength.2⟩

/-! ## All options -/

/-- Options are only read within the limits. -/
theorem within_of_read (hschema : schema.Built) (h : read schema limits type r = .ok o) :
    o.Within schema limits type := by
  simp only [read, bind_eq_ok, pure_eq_ok] at h
  obtain ⟨expand, hexpand, top, htop, skip, hskip, orderBy, horderBy, select, hselect, _, _, keywords, hkeywords,
    rfl⟩ := h
  constructor
  case top =>
    rcases optional_cases htop with rfl | ⟨text, hread⟩
    · exact Nat.min_le_right _ _
    · exact le_of_readPage hread
  case skip =>
    rcases optional_cases hskip with rfl | ⟨text, hread⟩
    · exact Nat.zero_le _
    · exact le_of_readPage hread
  case expand =>
    rcases optional_cases hexpand with rfl | ⟨text, hread⟩
    · exact ⟨Nat.zero_le _, List.nodup_nil, List.forall_mem_nil _, List.forall_mem_nil _⟩
    · exact expandsWithin_of_read hschema.navigable hread
  case orderBy =>
    rcases optional_cases horderBy with rfl | ⟨text, hread⟩
    · exact List.forall_mem_nil _
    · exact isQueryable_of_readOrderBy hread
  case select =>
    rcases optional_cases hselect with rfl | ⟨text, hread⟩
    · trivial
    · exact selectsWithin_of_read hread
  case keywords =>
    rcases optional_cases hkeywords with rfl | ⟨text, hread⟩
    · exact ⟨List.forall_mem_nil _, List.forall_mem_nil _, Nat.zero_le _⟩
    · exact wordsWithin_of_read hread

/-- A repeated expansion, a repeated field, and a standard page size above the greatest one. -/
theorem within_of_read_sale :
    let schema := (((Schema.empty.register (.named "Sales")).register (.named "Item")).associate "Sales" .many "Item"
      .many).1
    let limits : QueryLimits := { defaultTop := 9, expandTopMax := 5, keywordMax := 4 }
    let options : QueryOptions :=
      { entityType := "Sales", top := 5, skip := 3, orderBy := [⟨"price", .descending⟩],
        expand := [⟨"_Item", "Item", 100⟩], select := .fields ["price"], inlineCount := false, keywords := ["a", "b"],
        anchor := none }
    read schema limits "Sales"
        { skip := some "3", orderBy := some "price desc", expand := some "_Item, _Item", select := some "price,price",
          keywords := some "a  b" } = .ok options ∧
      options.Within schema limits "Sales" := by
  intro schema limits options
  have hschema : schema.Built := ((Schema.Built.empty.register rfl).register rfl).associate _ _ _ _
  have hread : read schema limits "Sales"
      { skip := some "3", orderBy := some "price desc", expand := some "_Item, _Item", select := some "price,price",
        keywords := some "a  b" } = .ok options := by decide +kernel
  exact ⟨hread, within_of_read hschema hread⟩

end QueryOptions

end EntityStore
