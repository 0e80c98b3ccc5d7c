import EntityStore.Entities.Search

/-!
# The meaning of filters

What a filter says of an entity, without regard to how the store looks for it. A comparison speaks of the elements
of a field, and strings longer than the index limit meet none.
-/
namespace EntityStore

open EntityStore.Filter

namespace Json

inductive Kind where
  | null
  | boolean
  | number
  | string
  | list
  | object
  deriving DecidableEq

def kind : Json → Kind
  | null => .null
  | bool _ => .boolean
  | number _ => .number
  | string _ => .string
  | array _ => .list
  | object _ => .object

/-- The value is the string, or a list that has it at some depth. -/
inductive HasString : Json → String → Prop
  | self (s : String) : HasString (.string s) s
  | item {items : List Json} {item : Json} {s : String} (mem : item ∈ items) (inside : HasString item s) :
      HasString (.array items) s

end Json

namespace Entity

/-- The elements of a field: those of its list, or else its value. -/
def elements (e : Entity) (field : String) : List Json :=
  match e.field? field with
  | some (.array items) => items
  | some value => [value]
  | none => []

/-- The field is absent, null or an empty list. -/
def Lacks (e : Entity) (field : String) : Prop :=
  e.field? field = none ∨ e.field? field = some .null ∨ e.field? field = some (.array [])

/-- Some string of the body has the word in it, both in lower case. -/
def Mentions (e : Entity) (word : String) : Prop :=
  ∃ value ∈ e.body.values, ∃ s, value.HasString s ∧ Text.lower word.toList <:+: Text.lower s.toList

end Entity

namespace Filter

/-- The kind of the values that an operand compares with. -/
def Operand.kind : Operand → Json.Kind
  | null => .null
  | boolean _ => .boolean
  | integer _ | double _ | dateTime _ => .number
  | string _ => .string

/-- The orders between a value and an operand that a comparator asks for. -/
def Comparator.Accepts : Comparator → Ordering → Prop
  | eq, order => order = .eq
  | ne, order => order ≠ .eq
  | gt, order => order = .gt
  | ge, order => order = .gt ∨ order = .eq
  | lt, order => order = .lt
  | le, order => order = .lt ∨ order = .eq

/-- A value is of the kind of the operand, is found by the index, and compares with the operand as asked. -/
structure Meets (stringMax : Nat) (op : Comparator) (operand : Operand) (value : Json) : Prop where
  kind : value.kind = operand.kind
  indexed : ∀ s, value = .string s → s.length ≤ stringMax
  compares : ∃ order, value.compare? operand.toJson = some order ∧ op.Accepts order

/-- Null equals what is missing, the empty string equals nothing, and any other operand some element. -/
def Equals (stringMax : Nat) (e : Entity) (field : String) (operand : Operand) : Prop :=
  if operand = .null then e.Lacks field
  else if operand = .string "" then False
  else ∃ value ∈ e.elements field, Meets stringMax .eq operand value

/-- What a comparison says of an entity. -/
def Compares (stringMax : Nat) (e : Entity) (field : String) (op : Comparator) (operand : Operand) : Prop :=
  match op with
  | .eq => Equals stringMax e field operand
  | .ne => ¬ Equals stringMax e field operand
  | op => ∃ value ∈ e.elements field, Meets stringMax op operand value

/-- What a call says of an entity. -/
def Passes (stringMax : Nat) (e : Entity) (field : String) (text : String) : StringTest → Prop
  | .startsWith => ∃ s, .string s ∈ e.elements field ∧ s.length ≤ stringMax ∧ text.toList <+: s.toList
  | .substringOf => text ≠ "" ∧ ∃ s, .string s ∈ e.elements field ∧ text.toList <:+: s.toList

end Filter

/-- What a filter says of an entity. -/
def TypedFilter.Means (stringMax : Nat) (e : Entity) : TypedFilter → Prop
  | .compare property op operand => Filter.Compares stringMax e property.name op operand
  | .test call property text => Filter.Passes stringMax e property.name text call
  | .join .and left right => left.Means stringMax e ∧ right.Means stringMax e
  | .join .or left right => left.Means stringMax e ∨ right.Means stringMax e
  | .group inner => inner.Means stringMax e

end EntityStore
