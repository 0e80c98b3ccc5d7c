import EntityStore.Proofs.Schema.Built

/-!
# Defaults

What filling in the defaults of a type makes of a body. Properties have distinct names, so the step for one property
leaves the others as they are, and what is reported on the way is what the finished body lacks. Main statement:
`fillDefaults?_fills_and_reports`.
-/
namespace EntityStore

theorem Json.isNull_iff {value : Json} : value.isNull = true ↔ value = .null := by
  cases value <;> simp [isNull]

namespace EntityType

/-- A body with the defaults of several properties, filled in one after the other. -/
def filled (ps : List Property) (body : Fields) : Fields := ps.foldl (fun body p => fillDefault p body) body

/-- The property must have a value and has none in the body. -/
def isOwed (body : Fields) (p : Property) : Bool := (body.find? p.name).all Json.isNull && !p.nullable

variable {p : Property} {ps : List Property} {name : String}

/-! ## One property -/

theorem find?_fillDefault (p : Property) (body : Fields) (name : String) : (fillDefault p body).find? name =
    if name = p.name then (body.find? name).or p.default? else body.find? name := by
  by_cases hname : name = p.name
  · subst hname
    rw [if_pos rfl, fillDefault]
    cases hdefault : p.default? with
    | none => exact (Option.or_none).symm
    | some value =>
      cases hfind : body.find? p.name with
      | none => simp [OrderedMap.contains, hfind, OrderedMap.find?_insert]
      | some old => simp [OrderedMap.contains, hfind]
  · rw [if_neg hname, fillDefault]
    split
    · split
      · rfl
      · rw [OrderedMap.find?_insert, if_neg hname]
    · rfl

/-! ## All properties -/

theorem find?_filled_of_ne (h : ∀ p ∈ ps, name ≠ p.name) (body : Fields) :
    (filled ps body).find? name = body.find? name := by
  induction ps generalizing body with
  | nil => rfl
  | cons p ps ih =>
    obtain ⟨hp, hps⟩ := List.forall_mem_cons.mp h
    rw [filled, List.foldl_cons, ← filled, ih hps, find?_fillDefault, if_neg hp]

theorem find?_filled (hnodup : (ps.map Property.name).Nodup) (hp : p ∈ ps) (body : Fields) :
    (filled ps body).find? p.name = (body.find? p.name).or p.default? := by
  induction ps generalizing body with
  | nil => cases hp
  | cons q ps ih =>
    obtain ⟨hq, hnodup⟩ := List.nodup_cons.mp hnodup
    rw [filled, List.foldl_cons, ← filled]
    rcases List.mem_cons.mp hp with rfl | hp
    · have hother : ∀ q ∈ ps, p.name ≠ q.name := fun q hmem heq => hq (heq ▸ List.mem_map_of_mem hmem)
      rw [find?_filled_of_ne hother, find?_fillDefault, if_pos rfl]
    · have hne : p.name ≠ q.name := fun heq => hq (heq ▸ List.mem_map_of_mem hp)
      rw [ih hnodup hp, find?_fillDefault, if_neg hne]

/-- What is found missing on the way is missing at the end: no later property has the same name. -/
theorem foldl_step (hnodup : (ps.map Property.name).Nodup) (body : Fields) (missing : List String) :
    ps.foldl (fun (acc : Fields × List String) p =>
        let body := fillDefault p acc.1
        let absent := (body.find? p.name).all Json.isNull
        (body, if absent && !p.nullable then acc.2 ++ [p.name] else acc.2)) (body, missing) =
      (filled ps body, missing ++ (ps.filter (isOwed (filled ps body))).map Property.name) := by
  induction ps generalizing body missing with
  | nil => exact congrArg (Prod.mk body) (List.append_nil missing).symm
  | cons p ps ih =>
    obtain ⟨hp, hnodup⟩ := List.nodup_cons.mp hnodup
    have hother : ∀ q ∈ ps, p.name ≠ q.name := fun q hmem heq => hp (heq ▸ List.mem_map_of_mem hmem)
    have hfilled : filled (p :: ps) body = filled ps (fillDefault p body) := rfl
    have howed : isOwed (filled (p :: ps) body) p =
        (((fillDefault p body).find? p.name).all Json.isNull && !p.nullable) := by
      rw [hfilled, isOwed, find?_filled_of_ne hother]
    rw [List.foldl_cons, ih hnodup, ← hfilled, List.filter_cons, howed]
    split <;> simp

/-! ## One type -/

variable {t : EntityType}

theorem KeepsNames.map_name (h : t.KeepsNames) : t.properties.values.map Property.name = t.properties.keys := by
  rw [OrderedMap.values, OrderedMap.keys, List.map_map]
  refine List.map_congr_left fun entry hentry => ?_
  exact h entry.1 entry.2 ((OrderedMap.mem_entries_iff _ _ _).mp hentry)

theorem KeepsNames.nodup (h : t.KeepsNames) : (t.properties.values.map Property.name).Nodup :=
  h.map_name ▸ t.properties.nodup_keys

theorem KeepsNames.mem_values_iff (h : t.KeepsNames) :
    p ∈ t.properties.values ↔ t.properties.find? p.name = some p := by
  rw [← OrderedMap.mem_entries_iff, OrderedMap.values, List.mem_map]
  constructor
  · rintro ⟨⟨name, p⟩, hentry, rfl⟩
    exact h name p ((OrderedMap.mem_entries_iff _ _ _).mp hentry) ▸ hentry
  · exact fun hentry => ⟨_, hentry, rfl⟩

theorem KeepsNames.fillDefaults_eq (h : t.KeepsNames) (body : Fields) :
    t.fillDefaults body = (filled t.properties.values body,
      (t.properties.values.filter (isOwed (filled t.properties.values body))).map Property.name) :=
  foldl_step h.nodup body []

/-- A field has its value in the body, or else the default of its property. -/
theorem KeepsNames.find?_filled (h : t.KeepsNames) (body : Fields) (name : String) :
    (filled t.properties.values body).find? name =
      (body.find? name).or ((t.properties.find? name).bind Property.default?) := by
  cases hfind : t.properties.find? name with
  | none =>
    have hother : ∀ p ∈ t.properties.values, name ≠ p.name := by
      rintro p hp rfl
      rw [h.mem_values_iff.mp hp] at hfind
      cases hfind
    rw [find?_filled_of_ne hother, Option.bind_none, Option.or_none]
  | some p =>
    obtain rfl := h name p hfind
    exact EntityType.find?_filled h.nodup (h.mem_values_iff.mpr hfind) body

theorem KeepsNames.filled_filled (h : t.KeepsNames) (body : Fields) :
    filled t.properties.values (filled t.properties.values body) = filled t.properties.values body := by
  refine OrderedMap.ext_find? fun name => ?_
  rw [h.find?_filled, h.find?_filled]
  cases body.find? name with
  | none => rw [Option.none_or, Option.or_self]
  | some value => rfl

theorem KeepsNames.ascending_owed (h : t.KeepsNames) (body : Fields) :
    ((t.properties.values.filter (isOwed body)).map Property.name).Pairwise fun a b => compare a b = .lt := by
  have hsublist := (List.filter_sublist (l := t.properties.values) (p := isOwed body)).map Property.name
  rw [h.map_name] at hsublist
  exact t.properties.ascending_keys.sublist hsublist

theorem KeepsNames.mem_owed_iff (h : t.KeepsNames) (body : Fields) :
    name ∈ (t.properties.values.filter (isOwed body)).map Property.name ↔
      ∃ p, t.properties.find? name = some p ∧ p.nullable = false ∧
        (body.find? name = none ∨ body.find? name = some .null) := by
  have hlacks : ∀ name, (body.find? name).all Json.isNull = true ↔
      body.find? name = none ∨ body.find? name = some .null := by
    intro name
    cases body.find? name <;> simp [Json.isNull_iff]
  simp only [List.mem_map, List.mem_filter, h.mem_values_iff, isOwed, Bool.and_eq_true, hlacks, Bool.not_eq_true']
  constructor
  · rintro ⟨p, ⟨hfind, hlacks, hnullable⟩, rfl⟩
    exact ⟨p, hfind, hnullable, hlacks⟩
  · rintro ⟨p, hfind, hnullable, hlacks⟩
    obtain rfl := h name p hfind
    exact ⟨p, ⟨hfind, hlacks, hnullable⟩, rfl⟩

end EntityType

namespace Schema

open EntityType

variable {s : Schema} {type : String} {t : EntityType}

/-- Filling in defaults changes no field that is present, null or not, adds the default of each absent property that has
one, and adds nothing else; it reports, in the order of names, the properties that may not be null and are absent or
null after that. Doing it again changes nothing and reports the same. -/
theorem fillDefaults?_fills_and_reports (h : s.KeepsNames) (ht : s.types.find? type = some t) (body : Fields) :
    ∃ filled missing, s.fillDefaults? type body = some (filled, missing) ∧
      (∀ name value, body.find? name = some value → filled.find? name = some value) ∧
      (∀ name, body.find? name = none → filled.find? name = (t.properties.find? name).bind Property.default?) ∧
      missing.Pairwise (fun a b => compare a b = .lt) ∧
      (∀ name, name ∈ missing ↔ ∃ p, t.properties.find? name = some p ∧ p.nullable = false ∧
        (filled.find? name = none ∨ filled.find? name = some .null)) ∧
      s.fillDefaults? type filled = some (filled, missing) := by
  have hnames : t.KeepsNames := h type t ht
  have hfill : ∀ body, s.fillDefaults? type body = some (t.fillDefaults body) := by
    intro body
    rw [fillDefaults?, ht, Option.map_some]
  refine ⟨_, _, (hfill body).trans (congrArg some (hnames.fillDefaults_eq body)), fun name value hvalue => ?_,
    fun name hnone => ?_, hnames.ascending_owed _, fun name => hnames.mem_owed_iff _, ?_⟩
  · rw [hnames.find?_filled, hvalue, Option.some_or]
  · rw [hnames.find?_filled, hnone, Option.none_or]
  · rw [hfill, hnames.fillDefaults_eq, hnames.filled_filled]

/-- A type with a default, a property without one that may not be null, a default that is null itself, and a default
for a field that the body sets to null. -/
def product : EntityType :=
  let stock := { Property.declared "Product" "stock" .int32 with default? := some (.ofInt 0) }
  let label := { Property.declared "Product" "label" .string with nullable := false }
  let note := { Property.declared "Product" "note" .string with nullable := false, default? := some .null }
  let size := { Property.declared "Product" "size" .int32 with nullable := false, default? := some (.ofInt 1) }
  ((((EntityType.named "Product").declare stock).declare label).declare note).declare size

theorem fillDefaults?_fills_and_reports_product :
    let s := Schema.empty.register product
    s.KeepsNames ∧ s.types.find? "Product" = some product ∧
      ∃ filled missing, s.fillDefaults? "Product" (.ofList [("size", .null)]) = some (filled, missing) ∧
        filled.find? "stock" = some (.ofInt 0) ∧ filled.find? "note" = some .null ∧ filled.find? "size" = some .null ∧
        filled.find? "label" = none ∧ (∀ name ∈ ["label", "note", "size"], name ∈ missing) ∧ "stock" ∉ missing := by
  intro s
  have hdeclared : s.Declared := .register .empty (.declare (.declare (.declare (.declare (.named "Product") _) _) _) _)
  have ht : s.types.find? "Product" = some product := OrderedMap.find?_insert _ _ _ _
  obtain ⟨filled, missing, hfill, hkept, hadded, -, hmissing, -⟩ :=
    fillDefaults?_fills_and_reports hdeclared.keepsNames ht (.ofList [("size", .null)])
  have hstock : filled.find? "stock" = some (.ofInt 0) := hadded "stock" rfl
  have hnote : filled.find? "note" = some .null := hadded "note" rfl
  have hsize : filled.find? "size" = some .null := hkept "size" .null rfl
  have hlabel : filled.find? "label" = none := hadded "label" rfl
  refine ⟨hdeclared.keepsNames, ht, filled, missing, hfill, hstock, hnote, hsize, hlabel, ?_, ?_⟩
  · simp only [List.forall_mem_cons, List.not_mem_nil, false_implies, implies_true, and_true, hmissing]
    exact ⟨⟨_, rfl, rfl, .inl hlabel⟩, ⟨_, rfl, rfl, .inr hnote⟩, ⟨_, rfl, rfl, .inr hsize⟩⟩
  · rw [hmissing]
    rintro ⟨p, -, -, hstock' | hstock'⟩ <;> rw [hstock] at hstock' <;> cases hstock'

end Schema

end EntityStore
