import EntityStore.Json
/-!
# Property types
-/
namespace EntityStore

/-- The type of a property. An undeclared one is dynamic and has no recorded type yet: it takes the type of the
literal it is compared with. -/
inductive EdmType where
  | string
  | int32
  | single
  | double
  | boolean
  | dateTime
  | undeclared
  deriving DecidableEq, Repr

namespace EdmType

def shortName : EdmType → String
  | string => "String"
  | int32 => "Int32"
  | single => "Single"
  | double => "Double"
  | boolean => "Boolean"
  | dateTime => "DateTime"
  | undeclared => "Undeclared"

/-- The name of a type in schema documents and messages. -/
def name : EdmType → String
  | undeclared => "Undeclared"
  | type => "Edm." ++ type.shortName

def all : List EdmType := [string, int32, single, double, boolean, dateTime, undeclared]

def ofShortName? (text : String) : Option EdmType := all.find? fun type => type.shortName == text

/-- The type of a name in a schema document; only declared types have one. -/
def ofName? (text : String) : Option EdmType :=
  all.find? fun type => type != undeclared && type.name == text

/-- The type that a written value shows: numbers are doubles, and null, arrays and objects show none. -/
def ofValue : Json → EdmType
  | .string _ => string
  | .number _ => double
  | .bool _ => boolean
  | .null | .array _ | .object _ => undeclared

/-- All types but booleans are ordered. -/
def isOrdered : EdmType → Bool
  | boolean => false
  | _ => true

end EdmType

end EntityStore
