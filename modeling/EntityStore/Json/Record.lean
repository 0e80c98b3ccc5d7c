import EntityStore.Json.Written
/-!
# Records in JSON texts

A record is written as an object with named fields, or as an array of its fields in their order.
-/
namespace EntityStore.Json.Written

/-- The one field of an object with the given name, if there is any; none if it is repeated. -/
def field? (name : String) (fields : List (Option String × Written)) : Option (Option Written) :=
  match fields.filter fun f => f.1 == some name with
  | [] => some none
  | [f] => some (some f.2)
  | _ => none

/-- The fields of a record in the order of `names`. Fields of other names are passed over, and an array may
leave out fields at its end. -/
def record? (names : List String) : Written → Option (List (Option Written))
  | .object fields =>
    if fields.all fun f => f.1.isSome then names.mapM fun name => field? name fields else none
  | .array items =>
    if items.length ≤ names.length then
      some (items.map some ++ List.replicate (names.length - items.length) none)
    else none
  | _ => none

/-- A natural number up to `max`. -/
def nat? (max : Nat) : Written → Option Nat
  | .number (some (.int n)) => if 0 ≤ n && n ≤ max then some n.toNat else none
  | _ => none

def bool? : Written → Option Bool
  | .bool b => some b
  | _ => none

def string? : Written → Option String
  | .string s => s
  | _ => none

/-- A name out of several: a string, or an object whose only field has that name and the value null. -/
def choice? : Written → Option String
  | .string s => s
  | .object [(name, .null)] => name
  | _ => none

end EntityStore.Json.Written
