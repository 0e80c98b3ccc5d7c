import EntityStore.Double
import EntityStore.OrderedMap
/-!
# JSON values

The values of entity bodies and of query operands. A number is an integer that fits a word of 64 bits, signed
or unsigned, or a double; an object lists its fields by name. Main statement: `Number.compare?_int`.
-/
namespace EntityStore

/-- A JSON number: an integer, or a finite double. -/
inductive Number where
  | int (n : Int)
  | real (x : Double)
  deriving DecidableEq, Repr

namespace Number

def toDouble : Number → Double
  | int n => .ofInt n
  | real x => x

def toInt64? : Number → Option Int
  | int n => if Decimal.fitsInt64 n then some n else none
  | real _ => none

/-- Compares two numbers: as integers if both fit 64 signed bits, and through doubles otherwise. -/
def compare? (a b : Number) : Option Ordering :=
  match a.toInt64?, b.toInt64? with
  | some m, some n => some (compare m n)
  | _, _ => a.toDouble.compare? b.toDouble

theorem compare?_int {m n : Int} (hm : Decimal.fitsInt64 m = true) (hn : Decimal.fitsInt64 n = true) :
    compare? (.int m) (.int n) = some (compare m n) := by
  simp [compare?, toInt64?, hm, hn]

end Number

/-- A JSON value; the fields of an object ascend by name. -/
inductive Json where
  | null
  | bool (b : Bool)
  | number (n : Number)
  | string (s : String)
  | array (items : List Json)
  | object (fields : List (String × Json))
  deriving Inhabited, Repr

abbrev Fields := OrderedMap String Json

namespace Json

def isNull : Json → Bool
  | null => true
  | _ => false

def asBool? : Json → Option Bool
  | bool b => some b
  | _ => none

def asString? : Json → Option String
  | string s => some s
  | _ => none

def items : Json → List Json
  | array items => items
  | _ => []

def fields : Json → Fields
  | object fields => .ofList fields
  | _ => .empty

def find? (name : String) : Json → Option Json
  | object fields => Entries.find? name fields
  | _ => none

def ofInt (n : Int) : Json := number (.int n)

end Json

end EntityStore
