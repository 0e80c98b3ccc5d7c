import EntityStore.Failure
import EntityStore.Lock
import EntityStore.OrderedMap
import EntityStore.Path
/-!
# Lock registries

One lock per path, made when it is first asked for and forgotten when nobody has a guard on it. Main statements:
`mem_inOrder_iff` and `ascending_inOrder`.
-/
namespace EntityStore

/-- What a lock is taken for; both kinds exclude each other. -/
inductive LockKind where
  /-- To create, delete or move. -/
  | structural
  /-- To change a content. -/
  | content
  deriving DecidableEq, Repr

/-- A caller's share in the lock of a path. -/
structure Guard where
  path : Path
  kind : LockKind
  token : Nat
  deriving DecidableEq, Repr

/-- A lock and the number of guards on it, those of tenures that were taken over included. -/
structure LockEntry where
  lock : Lock
  guards : Nat
  deriving DecidableEq, Repr

/-- The locks by path, all with the same lease. -/
structure LockRegistry where
  lease : Option Nat
  entries : OrderedMap Path LockEntry
  deriving DecidableEq

namespace LockRegistry

def empty (lease : Option Nat) : LockRegistry := ⟨lease, .empty⟩

/-- The entry of a path; a new lock if there is none. -/
def entry (r : LockRegistry) (p : Path) : LockEntry := (r.entries.find? p).getD ⟨.free, 0⟩

def set (r : LockRegistry) (p : Path) (e : LockEntry) : LockRegistry :=
  { r with entries := r.entries.insert p e }

def size (r : LockRegistry) : Nat := r.entries.size

/-- Forgets the lock of a path if nobody has a guard on it or holds it. -/
def prune (r : LockRegistry) (now : Nat) (p : Path) : LockRegistry :=
  let e := r.entry p
  if e.guards = 0 && !e.lock.isHeld r.lease now then { r with entries := r.entries.erase p } else r

/-- The registry with a lock just taken, and the guard on it. -/
def enter (r : LockRegistry) (p : Path) (kind : LockKind) (token : Nat) (lock : Lock) : Guard × LockRegistry :=
  (⟨p, kind, token⟩, r.set p ⟨lock, (r.entry p).guards + 1⟩)

/-- Takes the lock of a path if it is not held now. -/
def tryAcquire (r : LockRegistry) (now : Nat) (p : Path) (kind : LockKind) : Option Guard × LockRegistry :=
  match (r.entry p).lock.tryAcquire r.lease now with
  | some (token, lock) =>
    let (guard, r) := r.enter p kind token lock
    (some guard, r)
  | none => (none, (r.set p (r.entry p)).prune now p)

/-- Waits for the lock of a path while nobody releases it; also returns the time of the answer. -/
def acquire (r : LockRegistry) (now timeout : Nat) (p : Path) (kind : LockKind) :
    Except LockError Guard × LockRegistry × Nat :=
  match (r.entry p).lock.acquire r.lease now timeout with
  | (some (token, lock), now) =>
    let (guard, r) := r.enter p kind token lock
    (.ok guard, r, now)
  | (none, later) => (.error (.overflow p.text (later - now)), (r.set p (r.entry p)).prune later p, later)

/-- Gives up a guard; false if its tenure was taken over before. -/
def release (r : LockRegistry) (now : Nat) (g : Guard) : Bool × LockRegistry :=
  let e := r.entry g.path
  let (released, lock) := e.lock.release g.token
  (released, (r.set g.path ⟨lock, e.guards - 1⟩).prune now g.path)

def releaseAll (r : LockRegistry) (now : Nat) (gs : List Guard) : LockRegistry :=
  gs.foldl (fun r g => (r.release now g).2) r

def holds (r : LockRegistry) (now : Nat) (g : Guard) : Bool :=
  (r.entry g.path).lock.isHeldBy r.lease now g.token

/-- Fails if a guard no longer holds its lock. -/
def ensure (r : LockRegistry) (now : Nat) (g : Guard) : Except LockError Unit :=
  if r.holds now g then .ok () else .error (.expired g.path.text)

def inOrder (paths : List Path) : List Path := (OrderedMap.ofList (paths.map fun p => (p, ()))).keys

/-- Takes the locks of ascending paths one after the other until a common deadline. The first that is not to be
had gives up those taken before it. -/
def acquireEach (r : LockRegistry) (now deadline : Nat) (kind : LockKind) (taken : List Guard) :
    List Path → Except LockError (List Guard) × LockRegistry × Nat
  | [] => (.ok taken, r, now)
  | p :: rest =>
    match r.acquire now (deadline - now) p kind with
    | (.ok guard, r, now) => acquireEach r now deadline kind (taken ++ [guard]) rest
    | (.error e, r, now) => (.error e, r.releaseAll now taken, now)

/-- Takes the locks of several paths in ascending order, each once, all of them or none. The timeout is one that can
be added to the present moment: a clock has a last moment, and a deadline after it would be a fault of the caller. -/
def acquireAll (r : LockRegistry) (now timeout : Nat) (kind : LockKind) (paths : List Path) :
    Except LockError (List Guard) × LockRegistry × Nat :=
  r.acquireEach now (now + timeout) kind [] (inOrder paths)

theorem mem_inOrder_iff {paths : List Path} {p : Path} : p ∈ inOrder paths ↔ p ∈ paths := by
  rw [inOrder, OrderedMap.mem_keys_iff, OrderedMap.contains_ofList]
  simp

theorem ascending_inOrder (paths : List Path) :
    (inOrder paths).Pairwise fun p q => compare p q = .lt :=
  OrderedMap.ascending_keys _

end LockRegistry

end EntityStore
