import EntityStore.Decimal
import EntityStore.Text.Blank
/-!
# Entity tags

The tag of one state of an entity or a resource, and the preconditions that ask for a tag.
-/
namespace EntityStore

/-- A version and the time of the last change in milliseconds. -/
structure ETag where
  version : Nat
  updated : Int
  deriving DecidableEq, Repr

namespace ETag

/-- A tag as text, marked as weak. -/
def text (t : ETag) : String := "W/\"" ++ toString t.version ++ "-" ++ toString t.updated ++ "\""

/-- The text without the mark of a weak tag. -/
def dropWeak : List Char → List Char
  | 'W' :: '/' :: rest => rest
  | cs => cs

def unquote? : List Char → Option (List Char)
  | '"' :: rest => if rest.getLast? = some '"' then some rest.dropLast else none
  | _ => none

/-- Reads a tag, with blanks around it allowed and the mark of a weak tag optional. The first hyphen ends the
version. -/
def read? (s : String) : Option ETag := do
  let inner ← unquote? (dropWeak (Text.trimChars s.toList))
  match inner.dropWhile (· != '-') with
  | _ :: updated =>
    let version ← (Decimal.readNat? (inner.takeWhile (· != '-'))).filter Decimal.fitsUInt64
    let updated ← (Decimal.readInt? updated).filter Decimal.fitsInt64
    return ⟨version, updated⟩
  | [] => none

end ETag

inductive Precondition where
  /-- Any tag will do, but there must be one. -/
  | any
  | tag (t : ETag)
  deriving DecidableEq, Repr

namespace Precondition

def read? (s : String) : Option Precondition :=
  if Text.trim s = "*" then some .any else (ETag.read? s).map .tag

def text : Precondition → String
  | any => "*"
  | tag t => t.text

def admits (p : Precondition) (current : ETag) : Bool :=
  match p with
  | any => true
  | tag t => t == current

end Precondition

end EntityStore
