import EntityStore.Filter.Escape
import EntityStore.Double
import EntityStore.Timestamp
/-!
# Literals

The operands of a filter and their text.
-/
namespace EntityStore.Filter

/-- An operand as written. Numbers that are checked by their digits keep their text. -/
inductive Literal where
  | null
  | boolean (value : Bool)
  | integer (value : Int)
  /-- An integer with the suffix `L`. -/
  | long (value : Int)
  /-- A number with a fraction or an exponent, one with the suffix `d`, or an integer wider than 64 bits. -/
  | double (value : Double) (text : String)
  /-- A number with the suffix `f`. -/
  | single (value : Double) (text : String)
  /-- A number with the suffix `m`. -/
  | decimal (text : String)
  | string (value : String)
  /-- A point in time, in milliseconds since 1970. -/
  | dateTime (millis : Int)
  /-- A point in time written with an offset, in milliseconds since 1970. -/
  | dateTimeOffset (millis : Int)
  deriving DecidableEq, Repr

namespace Literal

def className : Literal → String
  | null => "null"
  | boolean _ => "boolean"
  | integer _ => "integer"
  | long _ => "long"
  | double _ _ => "double"
  | single _ _ => "single"
  | decimal _ => "decimal"
  | string _ => "string"
  | dateTime _ => "datetime"
  | dateTimeOffset _ => "datetimeoffset"

def isNull : Literal → Bool
  | null => true
  | _ => false

def isBoolean : Literal → Bool
  | boolean _ => true
  | _ => false

def doubleQuotes (cs : List Char) : List Char :=
  cs.flatMap fun c => if c == '\x27' then ['\x27', '\x27'] else [c]

/-- The text of a string operand: escaped, with quotes doubled, between quotes. -/
def quoted (s : String) : String :=
  .ofList ('\x27' :: (doubleQuotes (escape s.toList) ++ ['\x27']))

def text : Literal → String
  | null => "null"
  | boolean b => if b then "true" else "false"
  | integer n => toString n
  | long n => toString n ++ "L"
  | double _ text | single _ text | decimal text => text
  | string s => quoted s
  | dateTime millis => "datetime\x27" ++ Timestamp.text millis ++ "\x27"
  | dateTimeOffset millis => "datetimeoffset\x27" ++ Timestamp.text millis ++ "+00:00\x27"

/-- Equality by value: the two zeros are the same number, and a NaN is no number. -/
def same : Literal → Literal → Bool
  | double x s, double y t | single x s, single y t => x.compare? y == some .eq && s == t
  | a, b => a == b

end Literal

end EntityStore.Filter
