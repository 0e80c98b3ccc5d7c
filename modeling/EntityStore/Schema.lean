import EntityStore.Json.Record
import EntityStore.Schema.EdmType
import EntityStore.Schema.Name
/-!
# Schemas

Entity types with their declared and dynamic properties and their navigation properties. A dynamic property
is learned from the values written for it, and keeps the first type that a value shows.
-/
namespace EntityStore

inductive Multiplicity where
  | scalar
  | list
  deriving DecidableEq, Repr

def Multiplicity.name : Multiplicity → String
  | scalar => "Scalar"
  | list => "List"

def Multiplicity.ofName? (text : String) : Option Multiplicity :=
  [scalar, list].find? fun m => m.name == text

structure Property where
  entityType : String
  name : String
  type : EdmType
  nullable : Bool
  /-- Written in place of an absent value. -/
  default? : Option Json
  multiplicity : Multiplicity
  /-- Learned from written values, not declared. -/
  dynamic : Bool
  deriving Repr

namespace Property

/-- A nullable scalar property without a default. -/
def declared (entityType name : String) (type : EdmType) : Property :=
  ⟨entityType, name, type, true, none, .scalar, false⟩

def learned (entityType name : String) (type : EdmType) : Property :=
  { declared entityType name type with dynamic := true }

def fieldNames : List String :=
  ["entity_type", "name", "edm_type", "nullable", "default_value", "multiplicity", "dynamic"]

/-- The property that a document describes. Of its fields, only the default may be left out of an object. -/
def ofWritten? (document : Json.Written) : Option Property := do
  if let .array items := document then
    if items.length < fieldNames.length then none
  match ← document.record? fieldNames with
  | [some entityType, some name, some type, some nullable, default?, some multiplicity, some dynamic] =>
    let default? ← match default? with
      | none | some .null => some none
      | some value => (value.value? (Json.depthMax - 1)).map some
    return {
      entityType := ← entityType.string?
      name := ← name.string?
      type := ← EdmType.ofShortName? (← type.choice?)
      nullable := ← nullable.bool?
      default?
      multiplicity := ← Multiplicity.ofName? (← multiplicity.choice?)
      dynamic := ← dynamic.bool? }
  | _ => none

def read? (text : String) : Option Property := (Json.Written.read? text).bind ofWritten?

end Property

/-- How many entities one end of an association relates. -/
inductive Cardinality where
  | zeroOrOne
  | one
  | many
  deriving DecidableEq, Repr

namespace Cardinality

def text : Cardinality → String
  | zeroOrOne => "0..1"
  | one => "1"
  | many => "*"

def ofText? (text : String) : Option Cardinality :=
  [zeroOrOne, one, many].find? fun c => c.text == text

/-- The greatest number of related entities; none if there is no bound. -/
def max? : Cardinality → Option Nat
  | zeroOrOne | one => some 1
  | many => none

end Cardinality

/-- The way from entities of one type to the related entities of another. -/
structure Navigation where
  name : String
  source : String
  target : String
  sourceCardinality : Cardinality
  targetCardinality : Cardinality
  deriving DecidableEq, Repr

/-- The navigation from `source` to `target`, named by an underscore and the target. -/
def Navigation.between (source target : String) (sourceCardinality targetCardinality : Cardinality) :
    Navigation :=
  ⟨"_" ++ target, source, target, sourceCardinality, targetCardinality⟩

structure EntityType where
  name : String
  properties : OrderedMap String Property
  navigations : OrderedMap String Navigation
  deriving Inhabited

namespace EntityType

def named (name : String) : EntityType := ⟨name, .empty, .empty⟩

/-- Adds a property, which then belongs to this type. -/
def declare (t : EntityType) (p : Property) : EntityType :=
  { t with properties := t.properties.insert p.name { p with entityType := t.name } }

/-- The type that the system gives to a property of its own. -/
def systemType? (name : String) : Option EdmType :=
  if name == Name.id then some .string
  else if name == Name.published || name == Name.updated then some .dateTime
  else none

/-- Learns from a value written for `name`: an unknown property becomes dynamic, and a dynamic one without a
type takes the type of the value. -/
def learn (t : EntityType) (name : String) (value : Json) : EntityType :=
  if (systemType? name).isSome then t
  else
    let shown := EdmType.ofValue value
    match t.properties.find? name with
    | some p =>
      if p.dynamic && p.type = .undeclared && shown ≠ .undeclared then
        { t with properties := t.properties.insert name { p with type := shown } }
      else t
    | none => { t with properties := t.properties.insert name (.learned t.name name shown) }

/-- Learns from every field of a body, reserved and navigation names apart. -/
def learnBody (t : EntityType) (body : Fields) : EntityType :=
  body.entries.foldl
    (fun t f => if Name.isReserved f.1 || Name.isNavigation f.1 then t else t.learn f.1 f.2) t

/-- A body with the default of `p` if it has no value for `p`. -/
def fillDefault (p : Property) (body : Fields) : Fields :=
  match p.default? with
  | some value => if body.contains p.name then body else body.insert p.name value
  | none => body

/-- Fills in the defaults of absent properties; also returns, in the order of names, the properties that may
not be null and have no value. -/
def fillDefaults (t : EntityType) (body : Fields) : Fields × List String :=
  let step (acc : Fields × List String) (p : Property) : Fields × List String :=
    let body := fillDefault p acc.1
    let absent := (body.find? p.name).all Json.isNull
    (body, if absent && !p.nullable then acc.2 ++ [p.name] else acc.2)
  t.properties.values.foldl step (body, [])

end EntityType

structure Schema where
  types : OrderedMap String EntityType
  deriving Inhabited

namespace Schema

def empty : Schema := ⟨.empty⟩

def has (s : Schema) (entityType : String) : Bool := s.types.contains entityType

def register (s : Schema) (t : EntityType) : Schema := ⟨s.types.insert t.name t⟩

/-- The property that a name stands for, system properties included. -/
def property? (s : Schema) (entityType name : String) : Option Property :=
  (s.types.find? entityType).bind fun t =>
    match EntityType.systemType? name with
    | some type => some { Property.declared entityType name type with nullable := false }
    | none => t.properties.find? name

def navigation? (s : Schema) (entityType name : String) : Option Navigation :=
  (s.types.find? entityType).bind fun t => t.navigations.find? name

/-- Learns from a value written for a property; false if there is no such type. -/
def learn (s : Schema) (entityType name : String) (value : Json) : Schema × Bool :=
  (⟨s.types.modify entityType (·.learn name value)⟩, s.has entityType)

/-- Learns from a written body; false if there is no such type. -/
def learnBody (s : Schema) (entityType : String) (body : Fields) : Schema × Bool :=
  (⟨s.types.modify entityType (·.learnBody body)⟩, s.has entityType)

/-- Fills in the defaults of a type; none if there is no such type. -/
def fillDefaults? (s : Schema) (entityType : String) (body : Fields) : Option (Fields × List String) :=
  (s.types.find? entityType).map (·.fillDefaults body)

def addNavigation (s : Schema) (n : Navigation) : Schema :=
  ⟨s.types.modify n.source fun t => { t with navigations := t.navigations.insert n.name n }⟩

/-- Adds the navigations of an association in both directions; false if one of the types is missing. -/
def associate (s : Schema) (left : String) (leftCardinality : Cardinality) (right : String)
    (rightCardinality : Cardinality) : Schema × Bool :=
  if s.has left && s.has right then
    let there := Navigation.between left right leftCardinality rightCardinality
    let back := Navigation.between right left rightCardinality leftCardinality
    ((s.addNavigation there).addNavigation back, true)
  else (s, false)

end Schema

end EntityStore
