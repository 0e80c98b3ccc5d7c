import EntityStore.Failure
import EntityStore.Filter.Reading
import EntityStore.Query.Predicate
/-!
# Planning queries

From the texts of a request to the query of the store. The other options are checked before the filter.
-/
namespace EntityStore

/-- The filter of a text, checked against an entity type. -/
def TypedFilter.read (schema : Schema) (entityType text : String) : Except Failure TypedFilter := do
  let filter ← (Filter.parse text).mapError .parse
  (filter.typed schema entityType).mapError .typing

namespace StoreQuery

/-- The query for a request on an entity type; with an anchor, only among the entities linked to it. -/
def ofRequest (schema : Schema) (limits : QueryLimits) (entityType : String) (r : Request)
    (anchor : Option EntityKey) : Except Failure StoreQuery := do
  if !schema.has entityType then .error (.notFound entityType)
  else
    let options ← (QueryOptions.read schema limits entityType r).mapError .query
    let filter ← r.filter.mapM (TypedFilter.read schema entityType)
    return build filter { options with anchor }

/-- The query for a request on the entities that a navigation leads to. -/
def ofNavigation (schema : Schema) (limits : QueryLimits) (source : EntityKey) (navigation : String)
    (r : Request) : Except Failure StoreQuery :=
  match schema.navigation? source.type navigation with
  | some n => ofRequest schema limits n.target r (some source)
  | none => .error (.notFound (source.text ++ "/" ++ navigation))

end StoreQuery

end EntityStore
