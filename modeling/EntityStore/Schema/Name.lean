/-!
# Property names

Which words name properties, and the names that have a meaning of their own: the four system names and the
navigation names `_Type`.
-/
namespace EntityStore.Name

def metadata : String := "__metadata"

def id : String := "__id"

def published : String := "__published"

def updated : String := "__updated"

/-- ASCII letters, digits, underscores and hyphens, at least one. -/
def isValid (name : String) : Bool :=
  !name.toList.isEmpty && name.toList.all fun c => c.isAlphanum || c == '_' || c == '-'

/-- Names that never stand for an operand. -/
def isReserved (name : String) : Bool := name == metadata

/-- One underscore and a type name. -/
def isNavigation (name : String) : Bool :=
  match name.toList with
  | '_' :: c :: _ => c != '_'
  | _ => false

/-- Names that a filter, an order or a selection can use. -/
def isQueryable (name : String) : Bool := isValid name && !isReserved name && !isNavigation name

/-- The system properties, which a body never holds. -/
def system : List String := [id, published, updated, metadata]

end EntityStore.Name
