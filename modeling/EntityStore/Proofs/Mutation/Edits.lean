import EntityStore.Mutation.OfEntities
import EntityStore.Proofs.Lock.Consistent

/-!
# Changes of one entity

The operations that create, replace, merge and delete one entity take its lock before all else. With the lock they
come to what the change does in a single moment, as long as nobody else changes the stores meanwhile, however much
time passes between their steps. Main statements: `takesLock_operation` and `TakesLock.run`.
-/
namespace EntityStore

/-- A change of one entity. -/
inductive Edit where
  | create (body : Fields)
  | replace (body : Fields) (precondition : Precondition)
  | merge (patch : Fields) (precondition : Precondition)
  | delete (precondition : Precondition)

namespace Edit

def operation (timeout : Nat) (key : EntityKey) : Edit → Operation Outcome
  | create body => Mutation.create timeout key body
  | replace body precondition => Mutation.replace timeout key body precondition
  | merge patch precondition => Mutation.merge timeout key patch precondition
  | delete precondition => Mutation.delete timeout key precondition

/-- The entity that a change starts from, if the precondition admits it. -/
def admitted (key : EntityKey) (precondition : Precondition) (s : Entities) : Except Failure Entity :=
  match s.find? key with
  | some e =>
    if precondition.admits e.etag then .ok e
    else .error (.preconditionFailed key.text precondition.text e.etag.text)
  | none => .error (.notFound key.text)

/-- The outcome of a change of the store. -/
def stored (outcome : Entity → Outcome) : Except StoreError (Entity × Entities) → Except Failure (Outcome × Entities)
  | .ok (e, s) => .ok (outcome e, s)
  | .error e => .error (.ofStore e)

/-- What a change does in a single moment. -/
def effect (key : EntityKey) (now : Int) (s : Entities) : Edit → Except Failure (Outcome × Entities)
  | create body => stored (fun e => .created e.etag) (s.write now key body (some 0))
  | replace body precondition => (admitted key precondition s).bind fun e =>
    stored (fun e => .updated e.etag) (s.write now key body (some e.version))
  | merge patch precondition => (admitted key precondition s).bind fun e =>
    stored (fun e => .updated e.etag) (s.write now key (e.body.union patch) (some e.version))
  | delete precondition => (admitted key precondition s).bind fun e =>
    stored (fun _ => .deleted 1) (s.remove key (some e.version))

/-- The answer to a change in a single moment, and the stores after it; a failure leaves them as they are. -/
def result (key : EntityKey) (edit : Edit) (now : Nat) (s : Stores) : Except Failure Outcome × Stores :=
  match edit.effect key now s.entities with
  | .ok (outcome, entities) => (.ok outcome, { s with entities })
  | .error f => (.error f, s)

end Edit

/-! ## A lock that nobody has -/

namespace LockRegistry

/-- The registry after the first tenure of a lock has begun. -/
def taken (r : LockRegistry) (p : Path) (since : Nat) : LockRegistry := r.set p ⟨⟨some ⟨1, since⟩, 1⟩, 1⟩

variable {r : LockRegistry} {p : Path} {kind : LockKind} {now since : Nat}

theorem entry_of_untracked (h : r.entries.contains p = false) : r.entry p = ⟨.free, 0⟩ := by
  rw [OrderedMap.contains, Option.isSome_eq_false_iff, Option.isNone_iff_eq_none] at h
  rw [entry, h]
  rfl

theorem entry_taken : (r.taken p since).entry p = ⟨⟨some ⟨1, since⟩, 1⟩, 1⟩ := by rw [taken, entry_set, if_pos rfl]

theorem tryAcquire_of_untracked (h : r.entries.contains p = false) :
    r.tryAcquire now p kind = (some ⟨p, kind, 1⟩, r.taken p now) := by
  have hfree : (r.entry p).lock.isHeld r.lease now = false := by rw [entry_of_untracked h]; rfl
  rw [tryAcquire_of_free hfree, entry_of_untracked h]
  rfl

theorem acquire_of_untracked (h : r.entries.contains p = false) (timeout : Nat) :
    r.acquire now timeout p kind = (.ok ⟨p, kind, 1⟩, r.taken p now, now) := by
  rw [acquire, entry_of_untracked h]
  simp only [enter, entry_of_untracked h]
  rfl

theorem tryAcquire_taken (hlease : r.lease = none) :
    (r.taken p since).tryAcquire now p kind = (none, r.taken p since) := by
  have hcontains : (r.taken p since).entries.contains p = true := (contains_set _).mpr (.inl rfl)
  have hheld : ((r.taken p since).entry p).lock.isHeld (r.taken p since).lease now = true := by
    rw [entry_taken, show (r.taken p since).lease = none from hlease]
    rfl
  have hguards : ((r.taken p since).entry p).guards ≠ 0 := by
    rw [entry_taken]
    exact Nat.one_ne_zero
  simp only [tryAcquire, Lock.tryAcquire_eq_none_iff.mpr hheld, set_entry hcontains]
  simp [prune, hguards]

theorem holds_taken (hlease : r.lease = none) : (r.taken p since).holds now ⟨p, kind, 1⟩ = true := by
  rw [holds, entry_taken]
  simp [Lock.isHeldBy, Lock.hasExpired, taken, set, hlease]

theorem release_taken (h : r.entries.contains p = false) :
    ((r.taken p since).release now ⟨p, kind, 1⟩).2 = r := by
  refine ext_find? lease_release fun q => ?_
  rw [release, entry_taken, find?_prune_set]
  split
  · rename_i hq
    subst hq
    rw [OrderedMap.contains, Option.isSome_eq_false_iff, Option.isNone_iff_eq_none] at h
    rw [h]
    rfl
  · rename_i hq
    rw [taken, set, OrderedMap.find?_insert, if_neg hq]

end LockRegistry

/-- A procedure that asks for no lock and relies on no guard but its own. As long as nobody else changes the stores,
`post` tells of the answer, of the clock at the last access and of the stores. -/
def Procedure.Settles {α : Type} (guard : Guard) (post : α → Nat → Stores → Prop) (last : Nat) (s : Stores) :
    Procedure α → Prop
  | .done a => post a last s
  | .clock next => ∀ now, (next now).Settles guard post last s
  | .lock _ _ _ _ => False
  | .ensure g next => g = guard ∧ (next (.ok ())).Settles guard post last s
  | .access update next => ∀ now, (next now s).Settles guard post now (update now s)

/-- Without other callers, the procedure comes to what it settles on, and gives up its guards. -/
theorem Procedure.Settles.runWith {α : Type} {p : Procedure α} {guard : Guard} {post : α → Nat → Stores → Prop}
    {s : Service} (h : p.Settles guard post s.now s.stores) (hholds : s.locks.holds s.now guard = true)
    (guards : List Guard) :
    ∃ answer stores, post answer s.now stores ∧
      p.runWith guards s = (answer, ({ s with stores } : Service).releaseAll guards) := by
  induction p generalizing s with
  | done a => exact ⟨a, s.stores, h, rfl⟩
  | clock next ih => exact ih s.now (h s.now) hholds
  | lock => cases h
  | ensure g next ih =>
    obtain ⟨rfl, h⟩ := h
    have hensure : s.locks.ensure s.now g = .ok () := by rw [LockRegistry.ensure, hholds]; rfl
    obtain ⟨answer, stores, hpost, hrun⟩ := ih (.ok ()) h hholds
    exact ⟨answer, stores, hpost, by rw [Procedure.runWith, hensure, hrun]⟩
  | access update next ih =>
    have h' : (next s.now s.stores).Settles guard post s.now (update s.now s.stores) := h s.now
    exact @ih s.now s.stores { s with stores := update s.now s.stores } h' hholds

/-- A procedure that takes the lock of a path before all else, ends if that is refused, and with the lock comes to
`result` at the moment of its last access. -/
def Procedure.TakesLock {α : Type} (path : Path) (result : Nat → Stores → Except Failure α × Stores)
    (p : Procedure (Except Failure α)) : Prop :=
  ∃ (kind : LockKind) (deadline : Nat → Nat) (next : Except LockError Guard → Procedure (Except Failure α)),
    p = .clock (fun now => .lock path kind (deadline now) next) ∧
    (∀ e, next (.error e) = .done (.error (.lock e))) ∧
    ∀ guard last s, (next (.ok guard)).Settles guard (fun answer now stores => result now s = (answer, stores)) last s

/-- While nobody has the lock, the procedure comes to its result and leaves no trace in the locks. -/
theorem Procedure.TakesLock.run {α : Type} {path : Path} {result : Nat → Stores → Except Failure α × Stores}
    {p : Procedure (Except Failure α)} (h : p.TakesLock path result) {s : Service} (hlease : s.locks.lease = none)
    (hfree : s.locks.entries.contains path = false) :
    p.run s = ((result s.now s.stores).1, { s with stores := (result s.now s.stores).2 }) := by
  obtain ⟨kind, deadline, next, rfl, _, hsettles⟩ := h
  let held : Service := { s with locks := s.locks.taken path s.now }
  have hholds : held.locks.holds held.now ⟨path, kind, 1⟩ = true := LockRegistry.holds_taken hlease
  obtain ⟨answer, stores, hresult, hrun⟩ :=
    (hsettles ⟨path, kind, 1⟩ held.now held.stores).runWith hholds [⟨path, kind, 1⟩]
  have hacquire : s.acquire (deadline s.now - s.now) path kind = (.ok ⟨path, kind, 1⟩, held) := by
    simp only [Service.acquire, LockRegistry.acquire_of_untracked hfree]
    rfl
  rw [Procedure.run, Procedure.runWith, Procedure.runWith, hacquire]
  change (next (.ok ⟨path, kind, 1⟩)).runWith [⟨path, kind, 1⟩] held = _
  rw [hrun, hresult]
  simp only [Service.releaseAll, LockRegistry.releaseAll, List.foldl_cons, List.foldl_nil,
    LockRegistry.release_taken hfree, held]

namespace Mutation

open Operation Procedure

variable {α β : Type} {guard : Guard} {post : Except Failure α → Nat → Stores → Prop} {last : Nat} {s : Stores}

theorem settles_pure {a : α} (h : post (.ok a) last s) : Settles guard post last s (pure a : Operation α) := h

theorem settles_bind {x : Operation β} {f : β → Operation α}
    (h : Settles guard (fun r last s => match r with
      | .ok b => Settles guard post last s (f b)
      | .error e => post (.error e) last s) last s x) :
    Settles guard post last s (x >>= f : Operation α) := by
  change Settles guard post last s (Procedure.bind x (ExceptT.bindCont f))
  change Procedure (Except Failure β) at x
  induction x generalizing last s with
  | done r =>
    cases r with
    | ok b => exact h
    | error e => exact h
  | clock next ih => exact fun now => ih now (h now)
  | lock => exact h
  | ensure g next ih => exact ⟨h.1, ih _ h.2⟩
  | access update next ih => exact fun now => ih now s (h now)

theorem settles_ask {read : Stores → α} (h : ∀ now, post (.ok (read s)) now s) :
    Settles guard post last s (ask read) := h

theorem settles_ensure {post : Except Failure Unit → Nat → Stores → Prop} (h : post (.ok ()) last s) :
    Settles guard post last s (ensure guard) :=
  ⟨rfl, h⟩

theorem settles_checkTag {post : Except Failure Unit → Nat → Stores → Prop} {resource : String} {p : Precondition}
    {tag : ETag} (hok : p.admits tag = true → post (.ok ()) last s)
    (hfails : p.admits tag = false → post (.error (.preconditionFailed resource p.text tag.text)) last s) :
    Settles guard post last s (checkTag resource (some p) (some tag)) := by
  unfold checkTag
  cases hadmits : p.admits tag with
  | true =>
    simp only [Option.any_some, hadmits, if_true]
    exact hok hadmits
  | false =>
    simp only [Option.any_some, hadmits]
    exact hfails hadmits

/-- Reading the current entity and checking its tag. -/
theorem settles_admitted {key : EntityKey} {precondition : Precondition} {f : Entity → Operation α}
    (hok : ∀ e now, Edit.admitted key precondition s.entities = .ok e → Settles guard post now s (f e))
    (hfails : ∀ failure now, Edit.admitted key precondition s.entities = .error failure → post (.error failure) now s) :
    Settles guard post last s ((do
      let e ← current key
      checkTag key.text (some precondition) (some e.etag)
      f e) : Operation α) := by
  refine settles_bind (settles_bind (settles_ask fun now => ?_))
  cases hfind : s.entities.find? key with
  | none => exact hfails _ now (by simp only [Edit.admitted, hfind])
  | some e =>
    refine settles_pure (settles_bind (settles_checkTag (fun hadmits => ?_) fun hadmits => ?_))
    · exact hok e now (by simp only [Edit.admitted, hfind, hadmits, if_true])
    · exact hfails _ now (by simp only [Edit.admitted, hfind, hadmits]; rfl)

theorem settles_stored {outcome : Entity → Outcome}
    {step : Nat → Entities → Except StoreError (Entity × Entities)}
    {post : Except Failure Outcome → Nat → Stores → Prop}
    (hok : ∀ now o entities, Edit.stored outcome (step now s.entities) = .ok (o, entities) →
      post (.ok o) now { s with entities })
    (hfails : ∀ now failure, Edit.stored outcome (step now s.entities) = .error failure → post (.error failure) now s) :
    Settles guard post last s ((do
      let e ← changeEntities step
      return outcome e) : Operation Outcome) := by
  refine settles_bind fun now => ?_
  cases hstep : step now s.entities with
  | ok result =>
    simp only [hstep, Except.map]
    exact hok now _ _ (by rw [hstep]; rfl)
  | error e =>
    simp only [hstep, Except.map]
    exact hfails now _ (by rw [hstep]; rfl)

end Mutation

namespace Edit

open Mutation

theorem takesLock_revise (timeout : Nat) (key : EntityKey) (precondition : Precondition) (next : Fields → Fields)
    {edit : Edit} (heffect : ∀ now s, edit.effect key now s = (admitted key precondition s).bind fun e =>
      stored (fun e => .updated e.etag) (s.write now key (next e.body) (some e.version))) :
    Procedure.TakesLock key.path (edit.result key) (Mutation.revise timeout key precondition next) := by
  refine ⟨.content, (· + timeout), _, rfl, fun _ => rfl, fun guard last s => ?_⟩
  refine settles_admitted (fun e now he => ?_) fun failure now hfails => ?_
  · refine settles_bind (settles_ensure ?_)
    refine settles_stored (fun now o entities hwrite => ?_) fun now failure hwrite => ?_
    · simp [result, heffect, he, hwrite, Except.bind]
    · simp [result, heffect, he, hwrite, Except.bind]
  · simp [result, heffect, hfails, Except.bind]

/-- Every change of an entity takes its lock first, and then does what it does in a single moment. -/
theorem takesLock_operation (timeout : Nat) (key : EntityKey) (edit : Edit) :
    Procedure.TakesLock key.path (edit.result key) (edit.operation timeout key) := by
  cases edit with
  | create body =>
    refine ⟨.structural, (· + timeout), _, rfl, fun _ => rfl, fun guard last s => ?_⟩
    refine settles_stored (fun now o entities hwrite => ?_) fun now failure hwrite => ?_
    · simp [result, effect, hwrite]
    · simp [result, effect, hwrite]
  | replace body precondition => exact takesLock_revise timeout key precondition (fun _ => body) fun _ _ => rfl
  | merge patch precondition =>
    exact takesLock_revise timeout key precondition (fun body => body.union patch) fun _ _ => rfl
  | delete precondition =>
    refine ⟨.structural, (· + timeout), _, rfl, fun _ => rfl, fun guard last s => ?_⟩
    refine settles_admitted (fun e now he => ?_) fun failure now hfails => ?_
    · refine settles_stored (fun now o entities hremove => ?_) fun now failure hremove => ?_
      · simp [result, effect, he, hremove, Except.bind]
      · simp [result, effect, he, hremove, Except.bind]
    · simp [result, effect, hfails, Except.bind]

end Edit

end EntityStore
