import EntityStore.Entities
import EntityStore.Lock.Registry
import EntityStore.Resources
/-!
# The service

The two stores and the locks that guard them, at one moment.
-/
namespace EntityStore

structure Stores where
  entities : Entities
  resources : Resources

namespace Stores

def empty : Stores := ⟨.empty, .empty⟩

end Stores

/-- The stores and the locks at one moment, in milliseconds. -/
structure Service where
  stores : Stores
  locks : LockRegistry
  now : Nat

namespace Service

def start (lease : Option Nat) (now : Nat) : Service := ⟨.empty, .empty lease, now⟩

def sleep (s : Service) (millis : Nat) : Service := { s with now := s.now + millis }

def acquire (s : Service) (timeout : Nat) (path : Path) (kind : LockKind) :
    Except LockError Guard × Service :=
  let (result, locks, now) := s.locks.acquire s.now timeout path kind
  (result, { s with locks, now })

def tryAcquire (s : Service) (path : Path) (kind : LockKind) : Option Guard × Service :=
  let (result, locks) := s.locks.tryAcquire s.now path kind
  (result, { s with locks })

def acquireAll (s : Service) (timeout : Nat) (kind : LockKind) (paths : List Path) :
    Except LockError (List Guard) × Service :=
  let (result, locks, now) := s.locks.acquireAll s.now timeout kind paths
  (result, { s with locks, now })

def release (s : Service) (g : Guard) : Bool × Service :=
  let (released, locks) := s.locks.release s.now g
  (released, { s with locks })

def releaseAll (s : Service) (gs : List Guard) : Service := { s with locks := s.locks.releaseAll s.now gs }

/-- Runs an operation under the lock of a path. -/
def withLock {α : Type} (s : Service) (timeout : Nat) (path : Path) (kind : LockKind)
    (operation : Service → α × Service) : Except LockError α × Service :=
  match s.acquire timeout path kind with
  | (.ok guard, s) =>
    let (result, s) := operation s
    (.ok result, (s.release guard).2)
  | (.error e, s) => (.error e, s)

end Service

end EntityStore
