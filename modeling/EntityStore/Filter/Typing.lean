import EntityStore.Filter.Tree
import EntityStore.Schema
import EntityStore.Schema.Range
/-!
# Typed filters

Checking a filter against a schema: every name must stand for a property, and every operand must have the type
of its property and lie in the range of that type.
-/
namespace EntityStore

namespace Filter

/-- A property as a filter uses it. -/
structure PropertyUse where
  name : String
  declared : EdmType
  /-- The declared type, or the type of the operand if none is declared. -/
  effective : EdmType
  multiplicity : Multiplicity
  deriving DecidableEq, Repr

/-- An operand as a value of the effective type of its property. -/
inductive Operand where
  | null
  | boolean (value : Bool)
  | integer (value : Int)
  | double (value : Double)
  | string (value : String)
  | dateTime (millis : Int)
  deriving DecidableEq, Repr

/-- An operand as a JSON value; doubles that are no numbers have none and become null. -/
def Operand.toJson : Operand → Json
  | null => .null
  | boolean b => .bool b
  | integer n | dateTime n => .ofInt n
  | double x => if x.isFinite then .number (.real x) else .null
  | string s => .string s

end Filter

open EntityStore.Filter

/-- A filter whose names and operands fit a schema. -/
inductive TypedFilter where
  | compare (property : PropertyUse) (op : Comparator) (operand : Operand)
  | test (test : StringTest) (property : PropertyUse) (operand : String)
  | join (connective : Connective) (left right : TypedFilter)
  | group (inner : TypedFilter)
  deriving DecidableEq, Repr

inductive TypingError where
  | unknownKey (entityType property : String)
  | mismatch (property operator : String) (type : EdmType) (className : String)
  | outOfRange (property : String) (type : EdmType) (operand : String)
  | notOrdered (property operator : String)
  deriving DecidableEq, Repr

def TypingError.message : TypingError → String
  | unknownKey entityType property =>
    "unknown query key \x27" ++ property ++ "\x27 for entity type " ++ entityType
  | mismatch property operator type className =>
    "\x27" ++ operator ++ "\x27 cannot apply " ++ property ++ " (" ++ type.name ++ ") to a " ++ className ++
      " operand"
  | outOfRange property type operand =>
    "operand " ++ operand ++ " is out of range for " ++ property ++ " (" ++ type.name ++ ")"
  | notOrdered property operator =>
    "\x27" ++ operator ++ "\x27 is not defined for Edm.Boolean property " ++ property

namespace Filter

/-- The type that a literal shows by its class. -/
def Literal.type : Literal → EdmType
  | null => .undeclared
  | boolean _ => .boolean
  | string _ => .string
  | integer _ | long _ | double _ _ | decimal _ => .double
  | single _ _ => .single
  | dateTime _ | dateTimeOffset _ => .dateTime

def isIntegerText (text : String) : Bool :=
  match text.toList with
  | '-' :: digits => Decimal.isDigits digits
  | digits => Decimal.isDigits digits

/-- The property that a name stands for, used with an operand. -/
def resolve (schema : Schema) (entityType name : String) (operand : Literal) :
    Except TypingError PropertyUse :=
  if Name.isReserved name || Name.isNavigation name then .error (.unknownKey entityType name)
  else
    match schema.property? entityType name with
    | none => .error (.unknownKey entityType name)
    | some p =>
      let effective := if p.type = .undeclared then operand.type else p.type
      .ok ⟨p.name, p.type, effective, p.multiplicity⟩

/-- The value of an operand, first by type and then by range. -/
def coerce (property : PropertyUse) (operator : String) (literal : Literal) : Except TypingError Operand :=
  let within (ok : Bool) (value : Operand) : Except TypingError Operand :=
    if ok then .ok value else .error (.outOfRange property.name property.effective literal.text)
  let mismatch : Except TypingError Operand :=
    .error (.mismatch property.name operator property.effective literal.className)
  match literal with
  | .null => .ok .null
  | .string s => if property.effective = .string then .ok (.string s) else mismatch
  | .boolean b => if property.effective = .boolean then .ok (.boolean b) else mismatch
  | .integer n | .long n =>
    match property.effective with
    | .int32 => within (Range.int32 n) (.integer n)
    | .single => within (Range.singleText (toString n)) (.double (.ofInt n))
    | .double => within (Range.double (.ofInt n)) (.double (.ofInt n))
    | .dateTime => within (Range.dateTime n) (.dateTime n)
    | _ => mismatch
  | .double x text =>
    match property.effective with
    | .single => within (Range.singleText text) (.double x)
    | .double => within (Range.double x) (.double x)
    | .int32 | .dateTime => if isIntegerText text then within false .null else mismatch
    | _ => mismatch
  | .dateTime n | .dateTimeOffset n =>
    if property.effective = .dateTime then within (Range.dateTime n) (.dateTime n) else mismatch
  | .single _ _ | .decimal _ => mismatch

/-- Checks a filter; of several faults the leftmost counts. -/
def typed (schema : Schema) (entityType : String) : Filter → Except TypingError TypedFilter
  | .compare name op literal => do
    let property ← resolve schema entityType name literal
    if op.isOrdering && !property.effective.isOrdered then .error (.notOrdered property.name op.word)
    else return .compare property op (← coerce property op.word literal)
  | .test kind name literal => do
    let property ← resolve schema entityType name literal
    match property.effective, literal with
    | .string, .string value => return .test kind property value
    | _, _ => .error (.mismatch property.name kind.word property.effective literal.className)
  | .join connective left right => do
    let left ← typed schema entityType left
    return .join connective left (← typed schema entityType right)
  | .group inner => return .group (← typed schema entityType inner)

end Filter

end EntityStore
