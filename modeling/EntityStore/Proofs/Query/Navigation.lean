import EntityStore.Entities.Search
import EntityStore.Proofs.Entities.WellFormed
import EntityStore.Proofs.Query.Limits
import EntityStore.Query.Planning
import Mathlib.Data.List.Induction

/-!
# Navigations

Two ways lead from an entity to those it is linked with: the query of a navigation looks for entities whose links lead
back, and an expansion follows the entity's own links. In well-formed stores they find the same entities, each once.
Main statement: `navigation_and_expansion`.
-/
namespace EntityStore

namespace Entities

variable {s : Entities} {key : EntityKey} {a e : Entity} {type : String}

/-! ## Order -/

theorem insertLast_perm (sort : List SortKey) (e : Entity) (es : List Entity) :
    (insertLast sort e es).Perm (e :: es) := by
  induction es with
  | nil => exact .refl _
  | cons last before ih =>
    rw [insertLast]
    split
    · exact (ih.cons last).trans (.swap e last before)
    · exact .refl _

theorem sorted_perm (sort : List SortKey) (es : List Entity) : (sorted sort es).Perm es := by
  have hfold : ∀ acc, (es.foldl (fun acc e => insertLast sort e acc) acc).Perm (es ++ acc) := by
    induction es with
    | nil => exact fun acc => .refl _
    | cons e rest ih =>
      intro acc
      exact (ih _).trans (((insertLast_perm sort e acc).append_left rest).trans List.perm_middle)
  have h := hfold []
  rw [List.append_nil] at h
  exact (List.reverse_perm _).trans h

/-! ## Linked entities -/

/-- The entities of a type that an entity is linked with. -/
def linkedOf (s : Entities) (e : Entity) (type : String) : List Entity :=
  (e.links.keys.filter fun k => k.type == type).filterMap s.find?

theorem WellFormed.mem_values_iff (h : s.WellFormed) : e ∈ s.entries.values ↔ s.find? e.key = some e := by
  rw [OrderedMap.values, List.mem_map]
  constructor
  · rintro ⟨⟨k, e⟩, hmem, rfl⟩
    have hfind : s.find? k = some e := (s.entries.mem_entries_iff k e).mp hmem
    rwa [(h.fits k e hfind).key]
  · intro hfind
    exact ⟨(e.key, e), (s.entries.mem_entries_iff e.key e).mpr hfind, rfl⟩

theorem WellFormed.nodup_values (h : s.WellFormed) : s.entries.values.Nodup := by
  have hkeys : s.entries.values.map Entity.key = s.entries.keys := by
    rw [OrderedMap.values, OrderedMap.keys, List.map_map]
    refine List.map_congr_left fun b hb => ?_
    exact (h.fits b.1 b.2 ((s.entries.mem_entries_iff b.1 b.2).mp hb)).key
  exact List.Nodup.of_map Entity.key (hkeys ▸ s.entries.nodup_keys)

/-- Every link leads to an entity. -/
theorem WellFormed.exists_of_link (h : s.WellFormed) (ha : s.find? key = some a) {k : EntityKey}
    (hk : a.links.contains k = true) : ∃ e, s.find? k = some e ∧ e.key = k ∧ e.links.contains key = true := by
  have hlinked : s.linked key k = true := linked_iff.mpr ⟨a, ha, hk⟩
  rw [h.linked_comm] at hlinked
  obtain ⟨e, he, hback⟩ := linked_iff.mp hlinked
  exact ⟨e, he, (h.fits k e he).key, hback⟩

theorem WellFormed.map_key_linkedOf (h : s.WellFormed) (ha : s.find? key = some a) :
    (s.linkedOf a type).map Entity.key = a.links.keys.filter fun k => k.type == type := by
  have hall : ∀ k ∈ a.links.keys.filter fun k => k.type == type, ∃ e, s.find? k = some e ∧ e.key = k := by
    intro k hk
    have hcontains := (a.links.mem_keys_iff k).mp (List.mem_of_mem_filter hk)
    obtain ⟨e, he, hkey, _⟩ := h.exists_of_link ha hcontains
    exact ⟨e, he, hkey⟩
  rw [linkedOf]
  generalize a.links.keys.filter (fun k => k.type == type) = ks at hall
  induction ks with
  | nil => rfl
  | cons k rest ih =>
    obtain ⟨e, he, hkey⟩ := hall k List.mem_cons_self
    rw [List.filterMap_cons, he, List.map_cons, hkey, ih fun k hk => hall k (List.mem_cons_of_mem _ hk)]

theorem WellFormed.nodup_linkedOf (h : s.WellFormed) (ha : s.find? key = some a) : (s.linkedOf a type).Nodup := by
  refine List.Nodup.of_map Entity.key ?_
  rw [h.map_key_linkedOf ha]
  exact a.links.nodup_keys.filter _

theorem WellFormed.mem_linkedOf_iff (h : s.WellFormed) (ha : s.find? key = some a) :
    e ∈ s.linkedOf a type ↔ s.find? e.key = some e ∧ e.key.type = type ∧ e.links.contains key = true := by
  simp only [linkedOf, List.mem_filterMap, List.mem_filter, beq_iff_eq, OrderedMap.mem_keys_iff]
  constructor
  · rintro ⟨k, ⟨hk, htype⟩, he⟩
    obtain ⟨e', he', hkey, hback⟩ := h.exists_of_link ha hk
    obtain rfl := Option.some.inj (he.symm.trans he')
    rw [hkey]
    exact ⟨he, htype, hback⟩
  · rintro ⟨he, htype, hback⟩
    have hlinked : s.linked e.key key = true := linked_iff.mpr ⟨e, he, hback⟩
    rw [h.linked_comm] at hlinked
    obtain ⟨a', ha', hlink⟩ := linked_iff.mp hlinked
    obtain rfl := Option.some.inj (ha.symm.trans ha')
    exact ⟨e.key, ⟨hlink, htype⟩, he⟩

/-- Looking for the entities whose links lead back finds those that the links lead to. -/
theorem WellFormed.hits_linkedTo_perm (h : s.WellFormed) (ha : s.find? key = some a) (stringMax : Nat) :
    (s.hits stringMax type (.linkedTo key)).Perm (s.linkedOf a type) := by
  refine (List.perm_ext_iff_of_nodup (h.nodup_values.filter _) (h.nodup_linkedOf ha)).mpr fun e => ?_
  rw [h.mem_linkedOf_iff ha, List.mem_filter, h.mem_values_iff, Predicate.holds, Bool.and_eq_true, beq_iff_eq]

theorem length_linkedOf_le (s : Entities) (e : Entity) (type : String) : (s.linkedOf e type).length ≤ e.links.size := by
  have hkeys : e.links.keys.length = e.links.size := List.length_map _
  rw [← hkeys]
  exact Nat.le_trans (List.length_filterMap_le _ _) (List.length_filter_le _ _)

/-- A large enough page of an expansion has all that the entity is linked with. -/
theorem expand_eq {x : Expansion} (hsize : a.links.size ≤ x.top) :
    s.expand a x = (s.linkedOf a x.target).map Entity.allFields := by
  have hlength := s.length_linkedOf_le a x.target
  rw [expand, show List.filterMap _ _ = s.linkedOf a x.target from rfl,
    List.take_of_length_le (Nat.le_trans hlength hsize)]

end Entities

/-! ## Requests -/

/-- A request that neither filters nor skips anything. -/
structure Request.Unfiltered (r : Request) : Prop where
  filter : r.filter = none
  keywords : r.keywords = none
  skip : r.skip = none

variable {schema : Schema} {limits : QueryLimits} {type name : String} {r : Request} {o : QueryOptions}
  {q : StoreQuery} {n : Navigation}

theorem QueryOptions.of_read (h : QueryOptions.read schema limits type r = .ok o) :
    o.entityType = type ∧ (r.skip = none → o.skip = 0) ∧ (r.keywords = none → o.keywords = []) ∧
      ∀ text, r.expand = some text → readExpand schema type limits text = .ok o.expand := by
  simp only [QueryOptions.read, bind_eq_ok, pure_eq_ok] at h
  obtain ⟨expand, hexpand, top, _, skip, hskip, orderBy, _, select, _, inlineCount, _, keywords, hkeywords, rfl⟩ := h
  refine ⟨rfl, fun hnone => ?_, fun hnone => ?_, fun text htext => ?_⟩
  · rw [hnone] at hskip
    exact (Except.ok.inj hskip).symm
  · rw [hnone] at hkeywords
    exact (Except.ok.inj hkeywords).symm
  · rwa [htext] at hexpand

/-- The expansions of a query are those of the navigations that it names. -/
theorem QueryOptions.mem_of_readExpand {text : String} {names : List String} {xs : List Expansion}
    (hschema : schema.Navigable) (h : readExpand schema type limits text = .ok xs)
    (hnames : distinctItems? text = some names) (hname : name ∈ names)
    (hn : schema.navigation? type name = some n) :
    ⟨name, n.target, limits.expandPageSize⟩ ∈ xs ∧
      ∀ x ∈ xs, x.navigation = name → x = ⟨name, n.target, limits.expandPageSize⟩ := by
  simp only [readExpand, hnames] at h
  split at h
  · cases h
  · obtain ⟨hthere, hback⟩ := mem_of_mapM h
    constructor
    · obtain ⟨x, hx, hread⟩ := hthere name hname
      obtain ⟨m, hm, rfl⟩ := (expansion_eq_ok_iff hschema).mp hread
      obtain rfl := Option.some.inj (hn.symm.trans hm)
      exact hx
    · intro x hx hnavigation
      obtain ⟨name', _, hread⟩ := hback x hx
      obtain ⟨m, hm, rfl⟩ := (expansion_eq_ok_iff hschema).mp hread
      obtain rfl : name' = name := hnavigation
      obtain rfl := Option.some.inj (hn.symm.trans hm)
      rfl

namespace StoreQuery

theorem ofRequest_eq_ok_iff {anchor : Option EntityKey} :
    ofRequest schema limits type r anchor = .ok q ↔ schema.has type = true ∧ ∃ o filter,
      QueryOptions.read schema limits type r = .ok o ∧ r.filter.mapM (TypedFilter.read schema type) = .ok filter ∧
      q = build filter { o with anchor } := by
  unfold ofRequest
  cases schema.has type with
  | false => simp
  | true =>
    simp only [Bool.not_true, Bool.false_eq_true, if_false, bind_eq_ok, mapError_eq_ok, pure_eq_ok, true_and]
    constructor
    · rintro ⟨o, ho, filter, hfilter, rfl⟩
      exact ⟨o, filter, ho, hfilter, rfl⟩
    · rintro ⟨o, filter, ho, hfilter, rfl⟩
      exact ⟨o, ho, filter, hfilter, rfl⟩

/-- The query of a navigation asks for the linked entities of the type that it leads to. -/
theorem ofNavigation_eq_ok_iff {source : EntityKey} (hschema : schema.Navigable)
    (hn : schema.navigation? source.type name = some n) (hr : r.Unfiltered) :
    ofNavigation schema limits source name r = .ok q ↔
      ∃ o, QueryOptions.read schema limits n.target r = .ok o ∧ q = build none { o with anchor := some source } := by
  have hfilter : r.filter.mapM (TypedFilter.read schema n.target) = .ok none := by rw [hr.filter]; rfl
  rw [ofNavigation, hn, ofRequest_eq_ok_iff, hfilter]
  simp [(hschema _ _ _ hn).2]

theorem predicate_build_anchor {source : EntityKey} (hkeywords : o.keywords = []) :
    (build none { o with anchor := some source }).predicate = .linkedTo source := by
  simp [build, hkeywords, conjunction]

end StoreQuery

namespace Entities

variable {s : Entities} {key : EntityKey} {a e : Entity}

/-- A large enough page of the query of a navigation has all linked entities of its target. -/
theorem WellFormed.rows_perm (h : s.WellFormed) (ha : s.find? key = some a) (hschema : schema.Navigable)
    (hn : schema.navigation? key.type name = some n) (hr : r.Unfiltered)
    (hq : StoreQuery.ofNavigation schema limits key name r = .ok q) (htop : a.links.size ≤ q.top) (stringMax : Nat) :
    (s.run stringMax q).rows.Perm ((s.linkedOf a n.target).map (s.row q)) := by
  obtain ⟨o, ho, rfl⟩ := (StoreQuery.ofNavigation_eq_ok_iff hschema hn hr).mp hq
  obtain ⟨htype, hskip, hkeywords, _⟩ := QueryOptions.of_read ho
  have hhits : (s.hits stringMax n.target (.linkedTo key)).Perm (s.linkedOf a n.target) :=
    h.hits_linkedTo_perm ha stringMax
  have hperm := (sorted_perm o.orderBy _).trans hhits
  have hlength : (sorted o.orderBy (s.hits stringMax n.target (.linkedTo key))).length ≤ o.top := by
    rw [hperm.length_eq]
    exact Nat.le_trans (s.length_linkedOf_le a n.target) htop
  have hrows : (s.run stringMax (StoreQuery.build none { o with anchor := some key })).rows =
      (sorted o.orderBy (s.hits stringMax n.target (.linkedTo key))).map
        (s.row (StoreQuery.build none { o with anchor := some key })) := by
    simp only [run, StoreQuery.predicate_build_anchor (hkeywords hr.keywords)]
    simp only [StoreQuery.build, htype, hskip hr.skip, List.drop_zero, List.take_of_length_le hlength]
  rw [hrows]
  exact hperm.map _

theorem WellFormed.mem_row_keys_iff (h : s.WellFormed) (ha : s.find? key = some a) (hschema : schema.Navigable)
    (hn : schema.navigation? key.type name = some n) (hr : r.Unfiltered)
    (hq : StoreQuery.ofNavigation schema limits key name r = .ok q) (htop : a.links.size ≤ q.top) {stringMax : Nat}
    {b : EntityKey} :
    b ∈ (s.run stringMax q).rows.map Row.key ↔ s.linked key b = true ∧ b.type = n.target := by
  have hkeys := (h.rows_perm ha hschema hn hr hq htop stringMax).map Row.key
  rw [List.map_map, show Row.key ∘ s.row q = Entity.key from rfl, h.map_key_linkedOf ha] at hkeys
  rw [hkeys.mem_iff, List.mem_filter, OrderedMap.mem_keys_iff, beq_iff_eq, linked, ha]
  rfl

theorem row_of_mem_run {stringMax : Nat} {row : Row} (h : row ∈ (s.run stringMax q).rows) :
    ∃ e ∈ s.entries.values, row = s.row q e := by
  obtain ⟨e, he, rfl⟩ := List.mem_map.mp h
  have hhit : e ∈ s.hits stringMax q.entityType q.predicate :=
    (sorted_perm _ _).mem_iff.mp (List.mem_of_mem_drop (List.mem_of_mem_take he))
  exact ⟨e, List.mem_of_mem_filter hhit, rfl⟩

theorem body_comp_row (h : q.select = .all) : Row.body ∘ s.row q = Entity.allFields := by
  funext e
  simp only [Function.comp, row, h, select]

/-- What is bound to a key, if all of its bindings agree. -/
theorem find?_ofList_of_agree {ν : Type} {bindings : List (String × ν)} {k : String} {v : ν}
    (hmem : (k, v) ∈ bindings) (hagree : ∀ w, (k, w) ∈ bindings → w = v) :
    (OrderedMap.ofList bindings).find? k = some v := by
  induction bindings using List.reverseRecOn with
  | nil => cases hmem
  | append_singleton bindings b ih =>
    obtain ⟨k', w⟩ := b
    rw [OrderedMap.find?_ofList_append]
    split
    · rename_i hk
      subst hk
      rw [hagree w (by simp)]
    · rename_i hk
      refine ih ?_ fun w hw => hagree w (List.mem_append_left _ hw)
      simpa [hk] using hmem

/-- An expansion of a query is found under its navigation. -/
theorem find?_expanded {x : Expansion} (hx : x ∈ q.expand)
    (hagree : ∀ y ∈ q.expand, y.navigation = x.navigation → y = x) :
    (s.row q e).expanded.find? x.navigation = some (s.expand e x) := by
  refine find?_ofList_of_agree (List.mem_map_of_mem hx) fun docs hdocs => ?_
  obtain ⟨y, hy, heq⟩ := List.mem_map.mp hdocs
  obtain ⟨hnavigation, rfl⟩ := Prod.mk.inj heq
  rw [hagree y hy hnavigation]

/-- The row of an entity has all linked entities under an expansion with a large enough page. -/
theorem WellFormed.expanded_of_mem_run (h : s.WellFormed) (ha : s.find? key = some a) (hschema : schema.Navigable)
    (hn : schema.navigation? key.type name = some n) {text : String} {names : List String} {anchor : Option EntityKey}
    (hexpand : r.expand = some text) (hnames : QueryOptions.distinctItems? text = some names) (hname : name ∈ names)
    (hq : StoreQuery.ofRequest schema limits key.type r anchor = .ok q) (hsize : a.links.size ≤ limits.expandPageSize)
    {stringMax : Nat} {row : Row} (hrow : row ∈ (s.run stringMax q).rows) (hkey : row.key = key) :
    row.expanded.find? name = some ((s.linkedOf a n.target).map Entity.allFields) := by
  obtain ⟨_, o, filter, ho, _, rfl⟩ := StoreQuery.ofRequest_eq_ok_iff.mp hq
  obtain ⟨_, _, _, hread⟩ := QueryOptions.of_read ho
  obtain ⟨hmem, hagree⟩ := QueryOptions.mem_of_readExpand hschema (hread text hexpand) hnames hname hn
  obtain ⟨e, he, rfl⟩ := row_of_mem_run hrow
  have hfind : s.find? key = some e := hkey ▸ h.mem_values_iff.mp he
  obtain rfl := Option.some.inj (ha.symm.trans hfind)
  have hfound := find?_expanded (s := s) (e := a) (q := StoreQuery.build filter { o with anchor }) hmem hagree
  exact hfound.trans (congrArg some (expand_eq (x := ⟨name, n.target, limits.expandPageSize⟩) hsize))

end Entities

/-- In a store that any operations have led to, an entity has the navigation `name` to entities of another type. Those
it is linked with are its members, each once. The query of the navigation, without a filter and with a large enough
page, has a row for each member and no other; every query that expands the navigation, with large enough pages, has the
members in the row of the entity. The navigation back leads from a member, and from no other entity of its type, to
where it came from. -/
theorem navigation_and_expansion (operations : List (Int × Entities.Operation)) (schema : Schema)
    (hschema : schema.Built) (limits : QueryLimits) (stringMax : Nat) (key : EntityKey) (a : Entity) (name : String)
    (n : Navigation) (ha : (Entities.empty.after operations).find? key = some a)
    (hn : schema.navigation? key.type name = some n) :
    let s := Entities.empty.after operations
    ∃ members : List Entity, (∀ e ∈ members, s.find? e.key = some e) ∧ (members.map Entity.key).Nodup ∧
      members.map Entity.key = (a.links.keys.filter fun k => k.type == n.target) ∧
      (∀ r o, r.Unfiltered → QueryOptions.read schema limits n.target r = .ok o → a.links.size ≤ o.top →
        ∃ q, StoreQuery.ofNavigation schema limits key name r = .ok q ∧
          (s.run stringMax q).rows.Perm (members.map (s.row q)) ∧
          (o.select = .all → ((s.run stringMax q).rows.map Entities.Row.body).Perm (members.map Entity.allFields))) ∧
      (∀ r text names anchor q, r.expand = some text → QueryOptions.distinctItems? text = some names → name ∈ names →
        StoreQuery.ofRequest schema limits key.type r anchor = .ok q → a.links.size ≤ limits.expandPageSize →
        ∀ row ∈ (s.run stringMax q).rows, row.key = key →
          row.expanded.find? name = some (members.map Entity.allFields)) ∧
      ∀ b e back m, s.find? b = some e → b.type = n.target → schema.navigation? b.type back = some m →
        m.target = key.type → ∀ r r' q q', r.Unfiltered → r'.Unfiltered →
          StoreQuery.ofNavigation schema limits key name r = .ok q → a.links.size ≤ q.top →
          StoreQuery.ofNavigation schema limits b back r' = .ok q' → e.links.size ≤ q'.top →
          (b ∈ (s.run stringMax q).rows.map Entities.Row.key ↔
            key ∈ (s.run stringMax q').rows.map Entities.Row.key) := by
  intro s
  have h : s.WellFormed := Entities.wellFormed_empty.after operations
  have hnavigable : schema.Navigable := hschema.navigable
  refine ⟨s.linkedOf a n.target, fun e he => ((h.mem_linkedOf_iff ha).mp he).1, ?_, h.map_key_linkedOf ha, ?_, ?_, ?_⟩
  · rw [h.map_key_linkedOf ha]
    exact a.links.nodup_keys.filter _
  · intro r o hr ho htop
    have hq := (StoreQuery.ofNavigation_eq_ok_iff hnavigable hn hr).mpr ⟨o, ho, rfl⟩
    have hrows := h.rows_perm ha hnavigable hn hr hq htop stringMax
    refine ⟨_, hq, hrows, fun hselect => ?_⟩
    have hbodies := hrows.map Entities.Row.body
    rwa [List.map_map, Entities.body_comp_row hselect] at hbodies
  · intro r text names anchor q hexpand hnames hname hq hsize row hrow hrowkey
    exact h.expanded_of_mem_run ha hnavigable hn hexpand hnames hname hq hsize hrow hrowkey
  · intro b e back m he htype hm htarget r r' q q' hr hr' hq htop hq' htop'
    rw [h.mem_row_keys_iff ha hnavigable hn hr hq htop, h.mem_row_keys_iff he hnavigable hm hr' hq' htop',
      h.linked_comm, htarget]
    simp only [htype, and_true]

/-- The navigation of a product leads to the sale that it is linked with. -/
theorem navigation_and_expansion_sale :
    ∃ (schema : Schema) (a : Entity) (n : Navigation) (q : StoreQuery),
      let s := Entities.empty.after [(1, .write ⟨"Product", "p"⟩ .empty none), (2, .write ⟨"Sale", "s"⟩ .empty none),
        (3, .link ⟨"Sale", "s"⟩ ⟨"Product", "p"⟩)]
      schema.Built ∧ schema.navigation? "Product" "_Sale" = some n ∧ s.find? ⟨"Product", "p"⟩ = some a ∧
        StoreQuery.ofNavigation schema {} ⟨"Product", "p"⟩ "_Sale" {} = .ok q ∧
        (s.run 100 q).rows.map Entities.Row.key = [⟨"Sale", "s"⟩] := by
  let schema : Schema :=
    (((Schema.empty.register (.named "Product")).register (.named "Sale")).associate "Product" .one "Sale" .many).1
  have hbuilt : schema.Built := .associate (.register (.register .empty rfl) rfl) "Product" .one "Sale" .many
  let a : Entity := ⟨⟨"Product", "p"⟩, .empty, 1, 1, 1, OrderedMap.empty.insert ⟨"Sale", "s"⟩ (), 1⟩
  have hn : schema.navigation? "Product" "_Sale" = some (.between "Product" "Sale" .one .many) := by decide
  obtain ⟨members, _, _, hkeys, hquery, _⟩ := navigation_and_expansion
    [(1, .write ⟨"Product", "p"⟩ .empty none), (2, .write ⟨"Sale", "s"⟩ .empty none),
      (3, .link ⟨"Sale", "s"⟩ ⟨"Product", "p"⟩)] schema hbuilt {} 100 ⟨"Product", "p"⟩ a "_Sale" _ rfl hn
  obtain ⟨q, hq, hrows, _⟩ := hquery {} ⟨"Sale", 25, 0, [], [], .all, false, [], none⟩ ⟨rfl, rfl, rfl⟩ rfl (by decide)
  refine ⟨schema, a, _, q, hbuilt, hn, rfl, hq, ?_⟩
  have hrowkeys := hrows.map Entities.Row.key
  rw [List.map_map, show Entities.Row.key ∘ Entities.row _ q = Entity.key from rfl, hkeys] at hrowkeys
  exact List.perm_singleton.mp hrowkeys

end EntityStore
