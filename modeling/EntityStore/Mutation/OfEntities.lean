import EntityStore.Mutation.Procedure
/-!
# Mutations of entities

Every mutation takes the locks of the entities it touches, checks under them what it depends on, and then changes
the store.
-/
namespace EntityStore.Mutation

open Operation

/-- The current state of an entity. -/
def current (key : EntityKey) : Operation Entity := do
  match ← ask fun s => s.entities.find? key with
  | some e => return e
  | none => fail (.notFound key.text)

/-- Creates an entity. -/
def create (timeout : Nat) (key : EntityKey) (body : Fields) : Operation Outcome := do
  let _ ← lock timeout key.path .structural
  let e ← changeEntities fun now s => s.write now key body (some 0)
  return .created e.etag

/-- Writes the body that `next` makes of the current one. -/
def revise (timeout : Nat) (key : EntityKey) (precondition : Precondition) (next : Fields → Fields) :
    Operation Outcome := do
  let guard ← lock timeout key.path .content
  let e ← current key
  checkTag key.text (some precondition) (some e.etag)
  ensure guard
  let e ← changeEntities fun now s => s.write now key (next e.body) (some e.version)
  return .updated e.etag

/-- Replaces the body of an entity. -/
def replace (timeout : Nat) (key : EntityKey) (body : Fields) (precondition : Precondition) :
    Operation Outcome :=
  revise timeout key precondition fun _ => body

/-- Adds fields to the body of an entity; those that are not named stay. -/
def merge (timeout : Nat) (key : EntityKey) (patch : Fields) (precondition : Precondition) :
    Operation Outcome :=
  revise timeout key precondition fun body => body.union patch

/-- Deletes an entity. -/
def delete (timeout : Nat) (key : EntityKey) (precondition : Precondition) : Operation Outcome := do
  let _ ← lock timeout key.path .structural
  let e ← current key
  checkTag key.text (some precondition) (some e.etag)
  let _ ← changeEntities fun _ s => s.remove key (some e.version)
  return .deleted 1

/-- Removes entities one by one; counts those that were still there. -/
def removeEach : List EntityKey → Operation Nat
  | [] => return 0
  | key :: rest => do
    let gone ← changeEntities fun _ s =>
      match s.remove key none with
      | .ok (_, s) => .ok (1, s)
      | .error (.notFound _) => .ok (0, s)
      | .error e => .error e
    return gone + (← removeEach rest)

/-- Deletes all entities of a type, under the lock of the type and those of its entities. -/
def deleteType (timeout : Nat) (type : String) : Operation Outcome := do
  let _ ← lock timeout (EntityKey.typePath type) .structural
  let keys ← ask fun s => s.entities.keysOf type
  lockAll timeout (keys.map EntityKey.path) .structural
  return .deleted (← removeEach keys)

/-- Links two entities; false if they were linked before. -/
def link (timeout : Nat) (a b : EntityKey) : Operation Bool := do
  lockAll timeout [a.path, b.path] .content
  changeEntities fun _ s => s.link a b

/-- Drops the link between two entities; false if there was none. -/
def unlink (timeout : Nat) (a b : EntityKey) : Operation Bool := do
  lockAll timeout [a.path, b.path] .content
  changeEntities fun _ s => .ok (s.unlink a b)

end EntityStore.Mutation
