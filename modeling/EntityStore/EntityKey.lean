import EntityStore.Path
/-!
# Entity keys

The names of entities, ordered by type and then by identifier.
-/
namespace EntityStore

open Std

/-- The entity type and the identifier of one entity. -/
structure EntityKey where
  type : String
  id : String
  deriving DecidableEq, Repr

namespace EntityKey

/-- The first place at which two keys differ decides. -/
def order : EntityKey → EntityKey → Ordering :=
  compareLex (compareOn EntityKey.type) (compareOn EntityKey.id)

instance : Ord EntityKey := ⟨order⟩

instance : TransOrd EntityKey :=
  inferInstanceAs (TransCmp (compareLex (compareOn EntityKey.type) (compareOn EntityKey.id)))

instance : LawfulEqOrd EntityKey where
  eq_of_compare := by
    intro a b h
    change compareLex (compareOn EntityKey.type) (compareOn EntityKey.id) a b = .eq at h
    rw [compareLex_eq_eq] at h
    have ht : a.type = b.type := LawfulEqCmp.eq_of_compare h.1
    have hi : a.id = b.id := LawfulEqCmp.eq_of_compare h.2
    cases a
    cases b
    cases ht
    cases hi
    rfl

def text (k : EntityKey) : String := k.type ++ "(\x27" ++ k.id ++ "\x27)"

/-- The path that is locked for a whole entity type. The first segment is no name of a cell. -/
def typePath (type : String) : Path := (Path.root "$odata").child type

/-- The path that is locked for one entity. -/
def path (k : EntityKey) : Path := (typePath k.type).child k.id

end EntityKey

end EntityStore
