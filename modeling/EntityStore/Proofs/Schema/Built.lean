import EntityStore.Schema

/-!
# Schemas that are built

Types come into a schema without navigations, and only associations add these, so each navigation is found under its
own name and leads to a type of the schema. Properties are declared or learned under their own names. Main statements:
`Built.navigable` and `Declared.name_eq`.
-/
namespace EntityStore

namespace EntityType

theorem navigations_learn (t : EntityType) (name : String) (value : Json) :
    (t.learn name value).navigations = t.navigations := by
  simp only [learn]
  split
  · rfl
  · split
    · split <;> rfl
    · rfl

theorem navigations_learnBody (t : EntityType) (body : Fields) : (t.learnBody body).navigations = t.navigations := by
  unfold learnBody
  induction body.entries generalizing t with
  | nil => rfl
  | cons field rest ih =>
    rw [List.foldl_cons, ih]
    split
    · rfl
    · exact navigations_learn t _ _

end EntityType

namespace Schema

/-- What a schema comes to be by registering types, by associations and by learning. -/
inductive Built : Schema → Prop where
  | empty : Built .empty
  | register {s : Schema} {t : EntityType} (h : Built s) (hnew : t.navigations = .empty) : Built (s.register t)
  | associate {s : Schema} (h : Built s) (left : String) (leftCardinality : Cardinality) (right : String)
    (rightCardinality : Cardinality) : Built (s.associate left leftCardinality right rightCardinality).1
  | learn {s : Schema} (h : Built s) (entityType name : String) (value : Json) :
    Built (s.learn entityType name value).1
  | learnBody {s : Schema} (h : Built s) (entityType : String) (body : Fields) :
    Built (s.learnBody entityType body).1

/-- Navigations are found under their names and lead to types of the schema. -/
def Navigable (s : Schema) : Prop :=
  ∀ type name n, s.navigation? type name = some n → n.name = name ∧ s.has n.target = true

variable {s : Schema}

theorem has_modify (type : String) (f : EntityType → EntityType) (other : String) :
    has ⟨s.types.modify type f⟩ other = s.has other := by
  simp only [has, OrderedMap.contains, OrderedMap.find?_modify]
  split
  · rename_i h
    rw [h, Option.isSome_map]
  · rfl

/-- Changing a type in all but its navigations. -/
theorem Navigable.modify (h : s.Navigable) (type : String) {f : EntityType → EntityType}
    (hf : ∀ t, (f t).navigations = t.navigations) : Navigable ⟨s.types.modify type f⟩ := by
  intro type' name n hn
  have hsame : navigation? ⟨s.types.modify type f⟩ type' name = s.navigation? type' name := by
    simp only [navigation?, OrderedMap.find?_modify]
    split
    · rename_i heq
      rw [heq]
      cases s.types.find? type with
      | none => rfl
      | some t => simp only [Option.map_some, Option.bind_some, hf]
    · rfl
  rw [has_modify]
  exact h type' name n (hsame ▸ hn)

theorem Navigable.register (h : s.Navigable) {t : EntityType} (hnew : t.navigations = .empty) :
    (s.register t).Navigable := by
  have hhas : ∀ type, s.has type = true → (s.register t).has type = true := by
    intro type htype
    simp only [has, Schema.register, OrderedMap.contains, OrderedMap.find?_insert] at htype ⊢
    split
    · rfl
    · exact htype
  intro type name n hn
  simp only [navigation?, Schema.register, OrderedMap.find?_insert] at hn
  split at hn
  · simp [hnew] at hn
  · obtain ⟨hname, htarget⟩ := h type name n hn
    exact ⟨hname, hhas _ htarget⟩

theorem Navigable.addNavigation (h : s.Navigable) {n : Navigation} (htarget : s.has n.target = true) :
    (s.addNavigation n).Navigable := by
  intro type name m hm
  simp only [Schema.addNavigation, has_modify]
  simp only [navigation?, Schema.addNavigation, OrderedMap.find?_modify] at hm
  split at hm
  · rename_i heq
    subst heq
    cases htype : s.types.find? n.source with
    | none => simp [htype] at hm
    | some t =>
      simp only [htype, Option.map_some, Option.bind_some, OrderedMap.find?_insert] at hm
      split at hm
      · rename_i hname
        cases hm
        exact ⟨hname.symm, htarget⟩
      · exact h n.source name m (by simp [navigation?, htype, hm])
  · exact h type name m hm

theorem Navigable.associate (h : s.Navigable) (left : String) (leftCardinality : Cardinality) (right : String)
    (rightCardinality : Cardinality) : (s.associate left leftCardinality right rightCardinality).1.Navigable := by
  unfold Schema.associate
  split
  · rename_i hboth
    obtain ⟨hleft, hright⟩ := Bool.and_eq_true_iff.mp hboth
    have hthere := h.addNavigation (n := .between left right leftCardinality rightCardinality) hright
    refine hthere.addNavigation ?_
    rw [Schema.addNavigation, has_modify]
    exact hleft
  · exact h

theorem Built.navigable (h : s.Built) : s.Navigable := by
  induction h with
  | empty => exact nofun
  | register _ hnew ih => exact ih.register hnew
  | associate _ left leftCardinality right rightCardinality ih =>
    exact ih.associate left leftCardinality right rightCardinality
  | learn _ entityType name value ih => exact ih.modify entityType fun t => t.navigations_learn name value
  | learnBody _ entityType body ih => exact ih.modify entityType fun t => t.navigations_learnBody body

end Schema

/-! ## Properties -/

namespace EntityType

/-- What a type comes to be by declaring properties. -/
inductive Declared : EntityType → Prop where
  | named (name : String) : Declared (named name)
  | declare {t : EntityType} (h : Declared t) (p : Property) : Declared (t.declare p)

/-- Each property is found under its own name. -/
def KeepsNames (t : EntityType) : Prop := ∀ name p, t.properties.find? name = some p → p.name = name

variable {t : EntityType}

/-- Storing a property under its name. -/
theorem KeepsNames.insert (h : t.KeepsNames) (p : Property) :
    KeepsNames { t with properties := t.properties.insert p.name p } := by
  intro name q hq
  simp only [OrderedMap.find?_insert] at hq
  split at hq
  · rename_i hname
    cases hq
    exact hname.symm
  · exact h name q hq

theorem Declared.keepsNames (h : t.Declared) : t.KeepsNames := by
  induction h with
  | named name => exact nofun
  | @declare t h p ih => exact ih.insert { p with entityType := t.name }

theorem KeepsNames.learn (h : t.KeepsNames) (name : String) (value : Json) : (t.learn name value).KeepsNames := by
  simp only [EntityType.learn]
  split
  · exact h
  · split
    · rename_i p hp
      split
      · obtain rfl := h name p hp
        exact h.insert { p with type := EdmType.ofValue value }
      · exact h
    · exact h.insert (.learned t.name name (EdmType.ofValue value))

theorem KeepsNames.learnBody (h : t.KeepsNames) (body : Fields) : (t.learnBody body).KeepsNames := by
  unfold EntityType.learnBody
  induction body.entries generalizing t with
  | nil => exact h
  | cons field rest ih =>
    rw [List.foldl_cons]
    refine ih ?_
    split
    · exact h
    · exact h.learn _ _

end EntityType

namespace Schema

/-- What a schema comes to be by registering types with declared properties, by associations and by learning. -/
inductive Declared : Schema → Prop where
  | empty : Declared .empty
  | register {s : Schema} {t : EntityType} (h : Declared s) (declared : t.Declared) : Declared (s.register t)
  | associate {s : Schema} (h : Declared s) (left : String) (leftCardinality : Cardinality) (right : String)
    (rightCardinality : Cardinality) : Declared (s.associate left leftCardinality right rightCardinality).1
  | learn {s : Schema} (h : Declared s) (entityType name : String) (value : Json) :
    Declared (s.learn entityType name value).1
  | learnBody {s : Schema} (h : Declared s) (entityType : String) (body : Fields) :
    Declared (s.learnBody entityType body).1

/-- All types of the schema keep the names of their properties. -/
def KeepsNames (s : Schema) : Prop := ∀ type t, s.types.find? type = some t → t.KeepsNames

variable {s : Schema}

theorem KeepsNames.modify (h : s.KeepsNames) (type : String) {f : EntityType → EntityType}
    (hf : ∀ t, t.KeepsNames → (f t).KeepsNames) : KeepsNames ⟨s.types.modify type f⟩ := by
  intro type' t' ht'
  simp only [OrderedMap.find?_modify] at ht'
  split at ht'
  · obtain ⟨t, ht, rfl⟩ := Option.map_eq_some_iff.mp ht'
    exact hf t (h _ t ht)
  · exact h type' t' ht'

theorem KeepsNames.register (h : s.KeepsNames) {t : EntityType} (ht : t.KeepsNames) : (s.register t).KeepsNames := by
  intro type' t' ht'
  simp only [Schema.register, OrderedMap.find?_insert] at ht'
  split at ht'
  · cases ht'
    exact ht
  · exact h type' t' ht'

theorem KeepsNames.addNavigation (h : s.KeepsNames) (n : Navigation) : (s.addNavigation n).KeepsNames :=
  h.modify n.source fun _ ht => ht

theorem KeepsNames.associate (h : s.KeepsNames) (left : String) (leftCardinality : Cardinality) (right : String)
    (rightCardinality : Cardinality) : (s.associate left leftCardinality right rightCardinality).1.KeepsNames := by
  unfold Schema.associate
  split
  · exact (h.addNavigation _).addNavigation _
  · exact h

theorem Declared.keepsNames (h : s.Declared) : s.KeepsNames := by
  induction h with
  | empty => exact nofun
  | register _ declared ih => exact ih.register declared.keepsNames
  | associate _ left leftCardinality right rightCardinality ih =>
    exact ih.associate left leftCardinality right rightCardinality
  | learn _ entityType name value ih => exact ih.modify entityType fun t ht => ht.learn name value
  | learnBody _ entityType body ih => exact ih.modify entityType fun t ht => ht.learnBody body

/-- The property that a name stands for has this name. -/
theorem Declared.name_eq (h : s.Declared) {entityType name : String} {p : Property}
    (hp : s.property? entityType name = some p) : p.name = name := by
  rw [property?] at hp
  obtain ⟨t, ht, hp⟩ := Option.bind_eq_some_iff.mp hp
  split at hp
  · cases hp
    rfl
  · exact h.keepsNames entityType t ht name p hp

end Schema

end EntityStore
