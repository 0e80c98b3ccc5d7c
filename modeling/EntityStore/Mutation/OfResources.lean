import EntityStore.Mutation.Procedure
/-!
# Mutations of resources

The operations on the resource tree under its locks, and listings, which take no lock.
-/
namespace EntityStore.Mutation

open Operation

def node (path : Path) : Operation Node := do
  match ← ask fun s => s.resources.find? path with
  | some n => return n
  | none => fail (.notFound path.text)

def createNode (timeout : Nat) (path : Path) (kind : NodeKind) : Operation Outcome := do
  if !kind.isContainer then fail (.conflict path.text "files are created with put_file")
  else
    let _ ← lock timeout path .structural
    let n ← changeResources fun now r => r.insert now path kind
    return .created n.etag

def putFile (timeout : Nat) (path : Path) (contentType body : String) (precondition : Option Precondition) :
    Operation Outcome := do
  let _ ← lock timeout path .structural
  let current ← ask fun s => s.resources.find? path
  checkTag path.text precondition (current.map Node.etag)
  let (n, created) ← changeResources fun now r => r.putFile now path contentType body
  return if created then .created n.etag else .replaced n.etag

def moveNode (timeout : Nat) (source target : Path) (overwrite : Bool) (precondition : Option Precondition) :
    Operation Outcome := do
  if source.related target then
    fail (.conflict target.text ("cannot move " ++ source.text ++ " onto " ++ target.text))
  else
    lockAll timeout [source, target] .structural
    let n ← node source
    checkTag source.text precondition (some n.etag)
    if !overwrite then
      if let some existing ← ask fun s => s.resources.find? target then
        fail (.preconditionFailed target.text "no existing resource" existing.etag.text)
    let replaced ← changeResources fun now r => r.move now source target overwrite
    let moved ← node target
    return if replaced then .replaced moved.etag else .created moved.etag

/-- Deletes a node; a recursive deletion also locks and deletes everything below it. -/
def deleteNode (timeout : Nat) (path : Path) (recursive : Bool) (precondition : Option Precondition) :
    Operation Outcome := do
  let _ ← lock timeout path .structural
  let n ← node path
  checkTag path.text precondition (some n.etag)
  if recursive then
    let below ← askStore fun s => s.resources.descendants path
    lockAll timeout below .structural
    let removed ← changeResources fun _ r => r.removeSubtree path
    return .deleted removed.length
  else
    let _ ← changeResources fun _ r => r.remove path
    return .deleted 1

def setProperties (timeout : Nat) (path : Path) (set : OrderedMap String String) (remove : List String) :
    Operation Outcome := do
  let _ ← lock timeout path .content
  let n ← changeResources fun now r => r.setProperties now path set remove
  return .updated n.etag

/-- One line of a listing: a node, or the path of one that went away meanwhile. -/
inductive Listed where
  | found (node : Node)
  | vanished (path : Path)
  deriving DecidableEq

def readEach : List Path → Operation (List Listed)
  | [] => return []
  | path :: rest => do
    let line := match ← ask fun s => s.resources.find? path with
      | some n => Listed.found n
      | none => Listed.vanished path
    return line :: (← readEach rest)

/-- Lists a node and, if asked for, its children. -/
def list (path : Path) (withChildren : Bool) : Operation (List Listed) := do
  let n ← node path
  if withChildren then
    let children ← ask fun s => s.resources.children path
    match children with
    | .ok children => return .found n :: (← readEach children)
    | .error (.notFound _) => return [.found n]
    | .error e => fail (.ofStore e)
  else return [.found n]

end EntityStore.Mutation
