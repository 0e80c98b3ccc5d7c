import EntityStore.Entities
import EntityStore.Query.Predicate
import EntityStore.Text.Lowercase
/-!
# Searching entities

Which entities meet a condition, in what order they come, and which page of them a query returns.
-/
namespace EntityStore

namespace Json

/-- Compares two values of one kind; numbers compare by value. Other values have no order. -/
def compare? : Json → Json → Option Ordering
  | number a, number b => a.compare? b
  | string a, string b => some (compare a b)
  | bool a, bool b => some (compare a b)
  | _, _ => none

end Json

namespace Predicate

/-- Strings longer than the index allows are stored but not found by exact, range and prefix conditions. -/
def isIndexed (stringMax : Nat) : Json → Bool
  | .string s => s.length ≤ stringMax
  | _ => true

/-- Does a field have a value, or a list field an element, that passes a test? -/
def anyValue (e : Entity) (field : String) (test : Json → Bool) : Bool :=
  match e.field? field with
  | some (.array items) => items.any test
  | some value => test value
  | none => false

/-- Is a value on the right side of a bound? `beyond` is how it compares with a bound it lies beyond. -/
def satisfies (value : Json) (beyond : Ordering) : Option Bound → Bool
  | none => true
  | some bound =>
    match value.compare? bound.value with
    | some .eq => bound.inclusive
    | some order => order == beyond
    | none => false

/-- Does a string, or some string in a list, have the lower-case text `word` in its lower-case form? -/
def containsWord (word : List Char) : Json → Bool
  | .string s => Text.occursIn word (Text.lower s.toList)
  | .array items => anyContainsWord word items
  | _ => false
where
  anyContainsWord (word : List Char) : List Json → Bool
    | [] => false
    | item :: rest => containsWord word item || anyContainsWord word rest

/-- Is a field absent, null or an empty list? -/
def isMissing (e : Entity) (field : String) : Bool :=
  match e.field? field with
  | none | some .null => true
  | some (.array items) => items.isEmpty
  | some _ => false

mutual

/-- Does an entity meet a condition? The empty string is neither an exact value nor a part of any other. -/
def holds (stringMax : Nat) (e : Entity) : Predicate → Bool
  | .all => true
  | .term field value =>
    value.asString? != some "" &&
      anyValue e field fun v => isIndexed stringMax v && v.compare? value == some .eq
  | .range field lower upper =>
    anyValue e field fun v => isIndexed stringMax v && satisfies v .gt lower && satisfies v .lt upper
  | .startsWith field text =>
    anyValue e field fun v =>
      isIndexed stringMax v && v.asString?.any fun s => text.toList.isPrefixOf s.toList
  | .contains field text =>
    !text.isEmpty && anyValue e field fun v => v.asString?.any fun s => Text.occursIn text.toList s.toList
  | .missing field => isMissing e field
  | .keyword word =>
    let word := Text.lower word.toList
    e.body.values.any (containsWord word)
  | .linkedTo key => e.links.contains key
  | .not inner => !holds stringMax e inner
  | .and clauses => allHold stringMax e clauses
  | .or clauses => anyHolds stringMax e clauses

def allHold (stringMax : Nat) (e : Entity) : List Predicate → Bool
  | [] => true
  | clause :: rest => holds stringMax e clause && allHold stringMax e rest

def anyHolds (stringMax : Nat) (e : Entity) : List Predicate → Bool
  | [] => false
  | clause :: rest => holds stringMax e clause || anyHolds stringMax e rest

end

end Predicate

/-! ## Order -/

namespace SortKey

/-- Compares two entities by one property. Absent and null values come last in either direction. -/
def order (key : SortKey) (a b : Entity) : Ordering :=
  let value (e : Entity) := (e.field? key.property).filter fun v => !v.isNull
  match value a, value b with
  | none, none => .eq
  | none, some _ => .gt
  | some _, none => .lt
  | some x, some y =>
    let order := (x.compare? y).getD .eq
    match key.direction with
    | .ascending => order
    | .descending => order.swap

/-- Compares two entities by several properties, and then by their arrival. -/
def orderAll : List SortKey → Entity → Entity → Ordering
  | [], a, b => compare a.arrival b.arrival
  | key :: rest, a, b => (key.order a b).then (orderAll rest a b)

end SortKey

namespace Entities

/-- Inserts an entity at the end of a list that is kept in reverse: it moves past all that come after it. -/
def insertLast (sort : List SortKey) (e : Entity) : List Entity → List Entity
  | [] => [e]
  | last :: before =>
    if SortKey.orderAll sort e last = .lt then last :: insertLast sort e before else e :: last :: before

def sorted (sort : List SortKey) (es : List Entity) : List Entity :=
  (es.foldl (fun acc e => insertLast sort e acc) []).reverse

/-! ## Pages -/

structure Row where
  key : EntityKey
  etag : ETag
  body : Fields
  /-- The linked entities of every expansion, by navigation. -/
  expanded : OrderedMap String (List Fields)

/-- A page of results, and the number of all results if that was asked for. -/
structure Page where
  rows : List Row
  count : Option Nat

/-- The entities of a type that meet a condition, in the order of their keys. -/
def hits (s : Entities) (stringMax : Nat) (type : String) (predicate : Predicate) : List Entity :=
  s.entries.values.filter fun e => e.key.type == type && predicate.holds stringMax e

def expand (s : Entities) (e : Entity) (x : Expansion) : List Fields :=
  (((e.links.keys.filter fun k => k.type == x.target).filterMap s.find?).take x.top).map Entity.allFields

/-- The fields of an entity that a query selects; system properties always belong to them. -/
def select (e : Entity) : Selection → Fields
  | .all => e.allFields
  | .fields names =>
    e.addSystemFields <|
      .ofList (names.filterMap fun name => (e.body.find? name).map fun value => (name, value))

def row (s : Entities) (q : StoreQuery) (e : Entity) : Row where
  key := e.key
  etag := e.etag
  body := select e q.select
  expanded := .ofList (q.expand.map fun x => (x.navigation, s.expand e x))

def run (s : Entities) (stringMax : Nat) (q : StoreQuery) : Page :=
  let hits := sorted q.sort (s.hits stringMax q.entityType q.predicate)
  { rows := ((hits.drop q.skip).take q.top).map (s.row q)
    count := if q.inlineCount then some hits.length else none }

end Entities

end EntityStore
