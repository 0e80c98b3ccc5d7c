import EntityStore.Filter.Typing
import EntityStore.Query.Options
/-!
# Store queries

Conditions on entities, and the compilation of a typed filter and options to a query of the store.
-/
namespace EntityStore

/-- One end of a range. -/
structure Bound where
  value : Json
  inclusive : Bool
  deriving Repr

/-- A condition on an entity. On a list field, any element may meet it. -/
inductive Predicate where
  | all
  /-- The field has this value. -/
  | term (field : String) (value : Json)
  | range (field : String) (lower upper : Option Bound)
  | startsWith (field text : String)
  | contains (field text : String)
  /-- The field is absent, null or an empty list. -/
  | missing (field : String)
  /-- Some string of the body has the word in it, in either case. -/
  | keyword (word : String)
  | linkedTo (key : EntityKey)
  | not (inner : Predicate)
  | and (clauses : List Predicate)
  | or (clauses : List Predicate)
  deriving Inhabited, Repr

/-- What the store answers: the entities of a type that meet a condition, one page of them in order. -/
structure StoreQuery where
  entityType : String
  predicate : Predicate
  top : Nat
  skip : Nat
  sort : List SortKey
  expand : List Expansion
  select : Selection
  inlineCount : Bool
  deriving Repr

namespace Filter

/-- The condition of a comparison. Null compares with what is missing. -/
def comparison (field : String) (op : Comparator) (operand : Operand) : Predicate :=
  if operand = .null then
    match op with
    | .ne => .not (.missing field)
    | _ => .missing field
  else
    let value := operand.toJson
    match op with
    | .eq => .term field value
    | .ne => .not (.term field value)
    | .gt => .range field (some ⟨value, false⟩) none
    | .ge => .range field (some ⟨value, true⟩) none
    | .lt => .range field none (some ⟨value, false⟩)
    | .le => .range field none (some ⟨value, true⟩)

end Filter

/-- The condition that a typed filter states. -/
def TypedFilter.predicate : TypedFilter → Predicate
  | .compare property op operand => Filter.comparison property.name op operand
  | .test .startsWith property text => .startsWith property.name text
  | .test .substringOf property text => .contains property.name text
  | .join .and left right => .and [left.predicate, right.predicate]
  | .join .or left right => .or [left.predicate, right.predicate]
  | .group inner => inner.predicate

namespace StoreQuery

/-- All clauses together. -/
def conjunction : List Predicate → Predicate
  | [] => .all
  | [clause] => clause
  | clauses => .and clauses

/-- The query for a filter, if there is one, and options; keywords and the anchor are further clauses. -/
def build (filter : Option TypedFilter) (o : QueryOptions) : StoreQuery where
  entityType := o.entityType
  predicate := conjunction
    ((filter.map TypedFilter.predicate).toList ++ o.keywords.map .keyword ++
      (o.anchor.map .linkedTo).toList)
  top := o.top
  skip := o.skip
  sort := o.orderBy
  expand := o.expand
  select := o.select
  inlineCount := o.inlineCount

end StoreQuery

end EntityStore
