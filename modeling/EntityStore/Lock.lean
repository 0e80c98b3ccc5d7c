/-!
# Locks

A lock that one caller holds at a time. Every tenure has a token of its own, greater than all before it; with a
lease, a tenure that is old enough gives way to the next caller. Times are in milliseconds. Main
statements: `tryAcquire_eq_none_iff` and `release_fst_eq_true_iff`.
-/
namespace EntityStore

/-- A caller's hold on a lock. -/
structure Tenure where
  token : Nat
  since : Nat
  deriving DecidableEq, Repr

/-- The tenure of a lock, if it is held, and the number of tokens it has issued. -/
structure Lock where
  holder : Option Tenure
  issued : Nat
  deriving DecidableEq, Repr

namespace Lock

def free : Lock := ⟨none, 0⟩

def hasExpired (lease : Option Nat) (now : Nat) (t : Tenure) : Bool := lease.any (· ≤ now - t.since)

def isHeld (lease : Option Nat) (now : Nat) (l : Lock) : Bool := l.holder.any fun t => !hasExpired lease now t

/-- Does this token hold the lock, by a tenure that has not expired? -/
def isHeldBy (lease : Option Nat) (now : Nat) (token : Nat) (l : Lock) : Bool :=
  l.holder.any fun t => t.token == token && !hasExpired lease now t

/-- Gives the lock to a new tenure; returns its token. -/
def grant (now : Nat) (l : Lock) : Nat × Lock :=
  (l.issued + 1, ⟨some ⟨l.issued + 1, now⟩, l.issued + 1⟩)

def tryAcquire (lease : Option Nat) (now : Nat) (l : Lock) : Option (Nat × Lock) :=
  if l.isHeld lease now then none else some (l.grant now)

/-- The longest time that a caller waits, a day. -/
def waitMax : Nat := 86400000

/-- The first moment, up to a timeout from now, at which the lock can be had if nobody releases it. -/
def openAt? (lease : Option Nat) (now timeout : Nat) (l : Lock) : Option Nat :=
  if l.isHeld lease now then
    match lease, l.holder with
    | some lease, some t => if t.since + lease ≤ now + min timeout waitMax then some (t.since + lease) else none
    | _, _ => none
  else some now

/-- Waits for the lock while nobody releases it; returns the token and the lock, if it can be had, and the time
at which that is known. -/
def acquire (lease : Option Nat) (now timeout : Nat) (l : Lock) : Option (Nat × Lock) × Nat :=
  match l.openAt? lease now timeout with
  | some moment => (some (l.grant moment), moment)
  | none => (none, now + min timeout waitMax)

/-- Ends the tenure of a token, also an expired one; false if another tenure or none holds the lock. -/
def release (token : Nat) (l : Lock) : Bool × Lock :=
  if l.holder.any fun t => t.token == token then (true, { l with holder := none }) else (false, l)

theorem tryAcquire_eq_none_iff {lease : Option Nat} {now : Nat} {l : Lock} :
    l.tryAcquire lease now = none ↔ l.isHeld lease now = true := by
  unfold tryAcquire
  split <;> simp_all

theorem isHeldBy_grant {lease : Option Nat} (h : lease ≠ some 0) (now : Nat) (l : Lock) :
    (l.grant now).2.isHeldBy lease now (l.grant now).1 = true := by
  cases lease with
  | none => simp [grant, isHeldBy, hasExpired]
  | some n =>
    have : n ≠ 0 := fun hn => h (by rw [hn])
    simp [grant, isHeldBy, hasExpired]
    omega

theorem release_fst_eq_true_iff {token : Nat} {l : Lock} :
    (l.release token).1 = true ↔ ∃ t, l.holder = some t ∧ t.token = token := by
  unfold release
  split <;> cases h : l.holder <;> simp_all

end Lock

end EntityStore
