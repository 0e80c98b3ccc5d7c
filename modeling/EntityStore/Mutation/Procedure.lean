import EntityStore.Service
/-!
# Procedures

Operations on the stores as trees of atomic steps: reading the clock, taking a lock, asking whether a guard still
holds, and one access to the stores. What a caller does between two steps of a procedure is left open, so its
meaning can be stated for one caller alone or for several that take turns. The guards that a procedure takes are
given up when it ends.
-/
namespace EntityStore

/-- Steps that end with a result; each goes on by what its step answers. -/
inductive Procedure (α : Type) where
  | done (result : α)
  | clock (next : Nat → Procedure α)
  /-- Waits for the lock of a path until a deadline. -/
  | lock (path : Path) (kind : LockKind) (deadline : Nat) (next : Except LockError Guard → Procedure α)
  | ensure (guard : Guard) (next : Except LockError Unit → Procedure α)
  /-- Changes the stores and goes on by what they were, both at the same time. -/
  | access (update : Nat → Stores → Stores) (next : Nat → Stores → Procedure α)

namespace Procedure

def bind {α β : Type} (p : Procedure α) (f : α → Procedure β) : Procedure β :=
  match p with
  | done a => f a
  | clock next => clock fun now => (next now).bind f
  | lock path kind deadline next => lock path kind deadline fun r => (next r).bind f
  | ensure guard next => ensure guard fun r => (next r).bind f
  | access update next => access update fun now s => (next now s).bind f

instance : Monad Procedure where
  pure := done
  bind := bind

/-- Runs a procedure without other callers; `guards` are those it has taken so far. -/
def runWith {α : Type} (p : Procedure α) (guards : List Guard) (s : Service) : α × Service :=
  match p with
  | done a => (a, s.releaseAll guards)
  | clock next => (next s.now).runWith guards s
  | lock path kind deadline next =>
    match s.acquire (deadline - s.now) path kind with
    | (.ok guard, s) => (next (.ok guard)).runWith (guards ++ [guard]) s
    | (.error e, s) => (next (.error e)).runWith guards s
  | ensure guard next => (next (s.locks.ensure s.now guard)).runWith guards s
  | access update next =>
    (next s.now s.stores).runWith guards { s with stores := update s.now s.stores }

/-- Runs a procedure without other callers. -/
def run {α : Type} (p : Procedure α) (s : Service) : α × Service := p.runWith [] s

end Procedure

/-! ## Operations -/

/-- A procedure that can fail; the first failure ends it. -/
abbrev Operation (α : Type) := ExceptT Failure Procedure α

namespace Operation

def ofProcedure {α : Type} (p : Procedure (Except Failure α)) : Operation α := p

def fail {α : Type} (f : Failure) : Operation α := ofProcedure (.done (.error f))

def ofLock {α : Type} : Except LockError α → Procedure (Except Failure α)
  | .ok a => .done (.ok a)
  | .error e => .done (.error (.lock e))

def clock : Operation Nat := ofProcedure (.clock fun now => .done (.ok now))

def lock (timeout : Nat) (path : Path) (kind : LockKind) : Operation Guard := do
  let now ← clock
  ofProcedure (.lock path kind (now + timeout) ofLock)

/-- Takes the locks of ascending paths until a deadline. -/
def lockEach (deadline : Nat) (kind : LockKind) : List Path → Operation Unit
  | [] => return
  | path :: rest => do
    let _ ← (ofProcedure (.lock path kind deadline ofLock) : Operation Guard)
    lockEach deadline kind rest

/-- Takes the locks of several paths in ascending order, each once, until a common deadline. The timeout is one that can
be added to the present moment, as for `LockRegistry.acquireAll`. -/
def lockAll (timeout : Nat) (paths : List Path) (kind : LockKind) : Operation Unit := do
  let now ← clock
  lockEach (now + timeout) kind (LockRegistry.inOrder paths)

/-- Fails if a guard no longer holds its lock. -/
def ensure (guard : Guard) : Operation Unit := ofProcedure (.ensure guard ofLock)

def ask {α : Type} (read : Stores → α) : Operation α :=
  ofProcedure (.access (fun _ s => s) fun _ s => .done (.ok (read s)))

/-- Reads the stores; the operation fails if that does. -/
def askStore {α : Type} (read : Stores → Except StoreError α) : Operation α := do
  match ← ask read with
  | .ok a => return a
  | .error e => fail (.ofStore e)

/-- One change of the stores, which leaves them as they are if it fails. -/
def change {α : Type} (step : Nat → Stores → Except StoreError (α × Stores)) : Operation α :=
  ofProcedure <| .access
    (fun now s => match step now s with
      | .ok (_, s') => s'
      | .error _ => s)
    (fun now s => match step now s with
      | .ok (a, _) => .done (.ok a)
      | .error e => .done (.error (.ofStore e)))

def changeEntities {α : Type} (step : Nat → Entities → Except StoreError (α × Entities)) : Operation α :=
  change fun now s => (step now s.entities).map fun (a, entities) => (a, { s with entities })

def changeResources {α : Type} (step : Nat → Resources → Except StoreError (α × Resources)) : Operation α :=
  change fun now s => (step now s.resources).map fun (a, resources) => (a, { s with resources })

/-- Fails if a precondition does not admit the current tag; without a tag, none does. -/
def checkTag (resource : String) (precondition : Option Precondition) (current : Option ETag) :
    Operation Unit :=
  match precondition with
  | none => return
  | some p =>
    if current.any p.admits then return
    else fail (.preconditionFailed resource p.text ((current.map ETag.text).getD "none"))

end Operation

inductive Outcome where
  | created (tag : ETag)
  /-- Something was overwritten. -/
  | replaced (tag : ETag)
  | updated (tag : ETag)
  | deleted (count : Nat)
  deriving DecidableEq, Repr

def Outcome.tag? : Outcome → Option ETag
  | created tag | replaced tag | updated tag => some tag
  | deleted _ => none

end EntityStore
