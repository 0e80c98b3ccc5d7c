import EntityStore.EntityKey
import EntityStore.Query.Error
import EntityStore.Query.Request
import EntityStore.Schema
import EntityStore.Settings
import EntityStore.Text.Blank
/-!
# Query options

The options of a query but its filter, read from their texts and checked against the limits.
-/
namespace EntityStore

inductive Direction where
  | ascending
  | descending
  deriving DecidableEq, Repr

structure SortKey where
  property : String
  direction : Direction
  deriving DecidableEq, Repr

inductive Selection where
  | all
  | fields (names : List String)
  deriving DecidableEq, Repr

/-- A navigation whose targets are returned with each entity, up to `top` of them. -/
structure Expansion where
  navigation : String
  target : String
  top : Nat
  deriving DecidableEq, Repr

structure QueryOptions where
  entityType : String
  top : Nat
  skip : Nat
  orderBy : List SortKey
  expand : List Expansion
  select : Selection
  inlineCount : Bool
  keywords : List String
  /-- Only entities linked to this one are asked for. -/
  anchor : Option EntityKey
  deriving DecidableEq, Repr

namespace QueryOptions

/-- A number from 0 to `max`, blanks around it allowed. -/
def readPage (option : PageOption) (max : Nat) (text : String) : Except QueryError Nat :=
  match Decimal.readInt64? (Text.trim text) with
  | none => .error (.unreadable option text)
  | some n =>
    if 0 ≤ n && n ≤ max then .ok n.toNat else .error (.limitExceeded option n max)

/-- The items of a list, trimmed and each once; none if one is empty. -/
def distinctItems? (text : String) : Option (List String) :=
  ((Text.split ',' text).map Text.trim).foldlM
    (fun names item =>
      if item.isEmpty then none else some (if names.contains item then names else names ++ [item]))
    []

/-- The expansion along a navigation of the type. -/
def expansion (schema : Schema) (entityType : String) (limits : QueryLimits) (name : String) :
    Except QueryError Expansion :=
  match schema.navigation? entityType name with
  | some n => .ok ⟨n.name, n.target, limits.expandPageSize⟩
  | none => .error (.unknownNavigation entityType name)

def readExpand (schema : Schema) (entityType : String) (limits : QueryLimits) (text : String) :
    Except QueryError (List Expansion) :=
  match distinctItems? text with
  | none => .error (.emptyExpansion text)
  | some names =>
    if limits.expandMax < names.length then .error (.tooManyExpansions names.length limits.expandMax)
    else names.mapM (expansion schema entityType limits)

def readSortKey (text item : String) : Except QueryError SortKey :=
  match Text.words item with
  | [] => .error (.emptyOrderItem text)
  | property :: modifiers =>
    if !Name.isQueryable property then .error (.unsortable property)
    else
      let direction : Except QueryError Direction :=
        match modifiers.head? with
        | none | some "asc" => .ok .ascending
        | some "desc" => .ok .descending
        | some word => .error (.unknownDirection word)
      match direction with
      | .error e => .error e
      | .ok direction =>
        if 1 < modifiers.length then .error (.malformedOrderItem (Text.trim item))
        else .ok ⟨property, direction⟩

def readOrderBy (text : String) : Except QueryError (List SortKey) :=
  if (Text.trim text).isEmpty then .error .emptyOrder
  else (Text.split ',' text).mapM (readSortKey text)

/-- Takes up the selected names one by one; an asterisk selects everything. -/
def selectFrom (names : List String) : List String → Except QueryError Selection
  | [] => .ok (.fields names)
  | item :: rest =>
    if item = "*" then .ok .all
    else if !Name.isQueryable item then .error (.unselectable item)
    else selectFrom (if names.contains item then names else names ++ [item]) rest

def readSelect (text : String) : Except QueryError Selection :=
  let text := Text.trim text
  if text.isEmpty then .error .emptySelection
  else selectFrom [] ((Text.split ',' text).map Text.trim)

def readInlineCount (text : String) : Except QueryError Bool :=
  if text = "none" then .ok false
  else if text = "allpages" then .ok true
  else .error (.inlineCount text)

def readKeywords (max : Nat) (text : String) : Except QueryError (List String) :=
  if text.isEmpty || max < text.utf8ByteSize then .error (.keywordLength max)
  else .ok (Text.words text)

/-- Reads an option that is present. -/
def optional {α : Type} (standard : α) (read : String → Except QueryError α) :
    Option String → Except QueryError α
  | none => .ok standard
  | some text => read text

/-- Reads all options but the filter. What is expanded decides the greatest page size. -/
def read (schema : Schema) (limits : QueryLimits) (entityType : String) (r : Request) :
    Except QueryError QueryOptions := do
  let expand ← optional [] (readExpand schema entityType limits) r.expand
  let topMax := if expand.isEmpty then limits.topMax else limits.expandTopMax
  let top ← optional (min limits.defaultTop topMax) (readPage .top topMax) r.top
  let skip ← optional 0 (readPage .skip limits.skipMax) r.skip
  let orderBy ← optional [] readOrderBy r.orderBy
  let select ← optional .all readSelect r.select
  let inlineCount ← optional false readInlineCount r.inlineCount
  let keywords ← optional [] (readKeywords limits.keywordMax) r.keywords
  return { entityType, top, skip, orderBy, expand, select, inlineCount, keywords, anchor := none }

end QueryOptions

end EntityStore
