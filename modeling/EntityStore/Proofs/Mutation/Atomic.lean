import EntityStore.Proofs.Mutation.Orderly
import EntityStore.Proofs.Resources.Move

/-!
# Failures without effect

An operation that nobody disturbs changes the stores only when nothing can go wrong any more: it takes its locks and
checks all it depends on before the first change, and nothing fails after that. Main statement: `atomic_operation`.
-/
namespace EntityStore

/-- An operation that leaves the stores as they were at `origin` if it fails and `post` of the result and the stores
otherwise, as long as only its own steps change them; `s` are the stores that it goes on from. -/
def Procedure.Atomic {α : Type} (origin : Stores) (post : α → Stores → Prop) (s : Stores) :
    Procedure (Except Failure α) → Prop
  | .done (.ok a) => post a s
  | .done (.error _) => s = origin
  | .clock next => ∀ now, (next now).Atomic origin post s
  | .lock _ _ _ next => ∀ r, (next r).Atomic origin post s
  | .ensure _ next => ∀ r, (next r).Atomic origin post s
  | .access update next => ∀ now, (next now s).Atomic origin post (update now s)

namespace Mutation

open Operation Procedure

variable {α β : Type} {post : α → Stores → Prop} {origin s : Stores}

theorem atomic_pure {a : α} (h : post a s) : Atomic origin post s (pure a : Operation α) := h

theorem atomic_bind {x : Operation β} {f : β → Operation α}
    (h : Atomic origin (fun b s => Atomic origin post s (f b)) s x) :
    Atomic origin post s (x >>= f : Operation α) := by
  change Atomic origin post s (Procedure.bind x (ExceptT.bindCont f))
  change Procedure (Except Failure β) at x
  induction x generalizing s with
  | done r =>
    cases r with
    | ok b => exact h
    | error e => exact h
  | clock next ih => exact fun now => ih now (h now)
  | lock path kind deadline next ih => exact fun r => ih r (h r)
  | ensure guard next ih => exact fun r => ih r (h r)
  | access update next ih => exact fun now => ih now s (h now)

theorem atomic_ask {read : Stores → α} (h : post (read s) s) : Atomic origin post s (ask read) := fun _ => h

/-! ## Before the first change -/

section
variable {s : Stores}

theorem atomic_fail (f : Failure) : Atomic s post s (fail f : Operation α) := rfl

theorem atomic_ofLock {r : Except LockError α} (h : ∀ a, post a s) : Atomic s post s (ofLock r) := by
  cases r with
  | ok a => exact h a
  | error e => rfl

theorem atomic_lock {post : Guard → Stores → Prop} {timeout : Nat} {path : Path} {kind : LockKind}
    (h : ∀ g, post g s) : Atomic s post s (lock timeout path kind) :=
  fun _ _ => atomic_ofLock h

theorem atomic_lockEach {post : Unit → Stores → Prop} {deadline : Nat} {kind : LockKind} {paths : List Path}
    (h : post () s) : Atomic s post s (lockEach deadline kind paths) := by
  induction paths with
  | nil => exact atomic_pure h
  | cons path rest ih => exact atomic_bind fun _ => atomic_ofLock fun _ => ih

theorem atomic_lockAll {post : Unit → Stores → Prop} {timeout : Nat} {kind : LockKind} {paths : List Path}
    (h : post () s) : Atomic s post s (lockAll timeout paths kind) :=
  atomic_bind fun _ => atomic_lockEach h

theorem atomic_ensure {post : Unit → Stores → Prop} {guard : Guard} (h : post () s) :
    Atomic s post s (ensure guard) :=
  fun _ => atomic_ofLock fun _ => h

theorem atomic_askStore {read : Stores → Except StoreError α} (h : ∀ a, post a s) :
    Atomic s post s (askStore read) := by
  refine atomic_bind (atomic_ask ?_)
  cases hread : read s with
  | ok a => exact h a
  | error e => exact atomic_fail _

theorem atomic_checkTag {post : Unit → Stores → Prop} {resource : String} {precondition : Option Precondition}
    {tag : Option ETag} (h : post () s) : Atomic s post s (checkTag resource precondition tag) := by
  unfold checkTag
  split
  · exact h
  · split
    · exact h
    · exact atomic_fail _

theorem atomic_current {post : Entity → Stores → Prop} {key : EntityKey} (h : ∀ e, post e s) :
    Atomic s post s (current key) := by
  refine atomic_bind (atomic_ask ?_)
  split
  · exact h _
  · exact atomic_fail _

theorem atomic_node {post : Node → Stores → Prop} {path : Path} (h : ∀ n, post n s) :
    Atomic s post s (node path) := by
  refine atomic_bind (atomic_ask ?_)
  split
  · exact h _
  · exact atomic_fail _

end

/-! ## From the first change on -/

/-- A change that fails changes nothing; one that comes after another must not fail. -/
theorem atomic_change {step : Nat → Stores → Except StoreError (α × Stores)}
    (hok : ∀ now a s', step now s = .ok (a, s') → post a s') (herror : ∀ now e, step now s = .error e → s = origin) :
    Atomic origin post s (change step) := by
  intro now
  cases hstep : step now s with
  | ok result =>
    simp only [hstep]
    exact hok now result.1 result.2 hstep
  | error e =>
    simp only [hstep]
    exact herror now e hstep

theorem atomic_changeEntities {s : Stores} {step : Nat → Entities → Except StoreError (α × Entities)}
    (h : ∀ a s', post a s') : Atomic s post s (changeEntities step) :=
  atomic_change (fun _ _ _ _ => h _ _) fun _ _ _ => rfl

theorem atomic_changeResources {s : Stores} {step : Nat → Resources → Except StoreError (α × Resources)}
    (h : ∀ now a r', step now s.resources = .ok (a, r') → post a { s with resources := r' }) :
    Atomic s post s (changeResources step) := by
  refine atomic_change (fun now a s' hstep => ?_) fun _ _ _ => rfl
  cases hresult : step now s.resources with
  | ok result =>
    simp only [hresult] at hstep
    cases hstep
    exact h now _ _ hresult
  | error e =>
    simp only [hresult] at hstep
    cases hstep

/-! ## Operations on entities -/

theorem atomic_create {post : Outcome → Stores → Prop} (hpost : ∀ o s, post o s) (timeout : Nat) (key : EntityKey)
    (body : Fields) : Atomic s post s (create timeout key body) :=
  atomic_bind (atomic_lock fun _ => atomic_bind (atomic_changeEntities fun _ _ => atomic_pure (hpost _ _)))

theorem atomic_revise {post : Outcome → Stores → Prop} (hpost : ∀ o s, post o s) (timeout : Nat) (key : EntityKey)
    (precondition : Precondition) (next : Fields → Fields) :
    Atomic s post s (revise timeout key precondition next) := by
  refine atomic_bind (atomic_lock fun guard => ?_)
  refine atomic_bind (atomic_current fun e => ?_)
  refine atomic_bind (atomic_checkTag ?_)
  refine atomic_bind (atomic_ensure ?_)
  exact atomic_bind (atomic_changeEntities fun _ _ => atomic_pure (hpost _ _))

theorem atomic_delete {post : Outcome → Stores → Prop} (hpost : ∀ o s, post o s) (timeout : Nat) (key : EntityKey)
    (precondition : Precondition) : Atomic s post s (delete timeout key precondition) := by
  refine atomic_bind (atomic_lock fun guard => ?_)
  refine atomic_bind (atomic_current fun e => ?_)
  refine atomic_bind (atomic_checkTag ?_)
  exact atomic_bind (atomic_changeEntities fun _ _ => atomic_pure (hpost _ _))

/-- Removals do not fail: an entity that is gone is not counted. -/
theorem atomic_removeEach {post : Nat → Stores → Prop} (hpost : ∀ n s, post n s) (keys : List EntityKey) :
    Atomic origin post s (removeEach keys) := by
  induction keys generalizing s post with
  | nil => exact atomic_pure (hpost _ _)
  | cons key rest ih =>
    rw [removeEach_cons]
    refine atomic_bind (atomic_change (fun now gone s' _ => ?_) fun now e hfails => ?_)
    · exact atomic_bind (ih fun _ _ => atomic_pure (hpost _ _))
    · cases hfails

theorem atomic_deleteType {post : Outcome → Stores → Prop} (hpost : ∀ o s, post o s) (timeout : Nat) (type : String) :
    Atomic s post s (deleteType timeout type) := by
  refine atomic_bind (atomic_lock fun guard => ?_)
  refine atomic_bind (atomic_ask ?_)
  refine atomic_bind (atomic_lockAll ?_)
  exact atomic_bind (atomic_removeEach (fun _ _ => atomic_pure (hpost _ _)) _)

theorem atomic_link {post : Bool → Stores → Prop} (hpost : ∀ changed s, post changed s) (timeout : Nat)
    (a b : EntityKey) : Atomic s post s (link timeout a b) :=
  atomic_bind (atomic_lockAll (atomic_changeEntities hpost))

theorem atomic_unlink {post : Bool → Stores → Prop} (hpost : ∀ changed s, post changed s) (timeout : Nat)
    (a b : EntityKey) : Atomic s post s (unlink timeout a b) :=
  atomic_bind (atomic_lockAll (atomic_changeEntities hpost))

/-! ## Operations on resources -/

section
variable {post : Outcome → Stores → Prop} (hpost : ∀ o s, post o s) (timeout : Nat)
include hpost

theorem atomic_createNode (path : Path) (kind : NodeKind) : Atomic s post s (createNode timeout path kind) := by
  unfold createNode
  split
  · exact atomic_fail _
  · refine atomic_bind (atomic_lock fun guard => ?_)
    exact atomic_bind (atomic_changeResources fun _ _ _ _ => atomic_pure (hpost _ _))

theorem atomic_putFile (path : Path) (contentType body : String) (precondition : Option Precondition) :
    Atomic s post s (putFile timeout path contentType body precondition) := by
  refine atomic_bind (atomic_lock fun guard => ?_)
  refine atomic_bind (atomic_ask ?_)
  refine atomic_bind (atomic_checkTag ?_)
  exact atomic_bind (atomic_changeResources fun _ _ _ _ => atomic_pure (hpost _ _))

/-- What was moved is found at the target right after. -/
theorem atomic_moveNode (source target : Path) (overwrite : Bool) (precondition : Option Precondition) :
    Atomic s post s (moveNode timeout source target overwrite precondition) := by
  have hmove : Atomic s post s (do
      let replaced ← changeResources fun now r => r.move now source target overwrite
      let moved ← node target
      return if replaced then .replaced moved.etag else .created moved.etag : Operation Outcome) := by
    refine atomic_bind (atomic_changeResources fun now replaced r' hmoved => ?_)
    refine atomic_bind (atomic_bind (atomic_ask ?_))
    obtain ⟨node, hnode⟩ := Resources.exists_target_of_move hmoved
    simp only [hnode]
    exact atomic_pure (hpost _ _)
  unfold moveNode
  split
  · exact atomic_fail _
  · refine atomic_bind (atomic_lockAll ?_)
    refine atomic_bind (atomic_node fun n => ?_)
    refine atomic_bind (atomic_checkTag ?_)
    split
    · refine atomic_bind (atomic_ask ?_)
      split
      · exact atomic_bind (atomic_fail _)
      · exact hmove
    · exact hmove

theorem atomic_deleteNode (path : Path) (recursive : Bool) (precondition : Option Precondition) :
    Atomic s post s (deleteNode timeout path recursive precondition) := by
  refine atomic_bind (atomic_lock fun guard => ?_)
  refine atomic_bind (atomic_node fun n => ?_)
  refine atomic_bind (atomic_checkTag ?_)
  split
  · refine atomic_bind (atomic_askStore fun below => ?_)
    refine atomic_bind (atomic_lockAll ?_)
    exact atomic_bind (atomic_changeResources fun _ _ _ _ => atomic_pure (hpost _ _))
  · exact atomic_bind (atomic_changeResources fun _ _ _ _ => atomic_pure (hpost _ _))

theorem atomic_setProperties (path : Path) (set : OrderedMap String String) (remove : List String) :
    Atomic s post s (setProperties timeout path set remove) :=
  atomic_bind (atomic_lock fun _ => atomic_bind (atomic_changeResources fun _ _ _ _ => atomic_pure (hpost _ _)))

end

theorem atomic_readEach {post : List Listed → Stores → Prop} (h : ∀ lines, post lines s) (paths : List Path) :
    Atomic s post s (readEach paths) := by
  induction paths generalizing post with
  | nil => exact atomic_pure (h [])
  | cons path rest ih =>
    refine atomic_bind (atomic_ask ?_)
    split <;> exact atomic_bind (ih fun lines => atomic_pure (h _))

theorem atomic_list {post : List Listed → Stores → Prop} (h : ∀ lines s, post lines s) (path : Path)
    (withChildren : Bool) : Atomic s post s (list path withChildren) := by
  refine atomic_bind (atomic_node fun n => ?_)
  split
  · refine atomic_bind (atomic_ask ?_)
    split
    · refine atomic_bind (atomic_readEach (fun lines => ?_) _)
      exact atomic_pure (h _ _)
    · exact atomic_pure (h _ _)
    · exact atomic_fail _
  · exact atomic_pure (h _ _)

theorem atomic_operation (timeout : Nat) (call : Call) (s : Stores) :
    Atomic s (fun _ _ => True) s (call.operation timeout) := by
  cases call with
  | create key body => exact atomic_bind (atomic_create (fun _ _ => trivial) timeout key body)
  | replace key body precondition =>
    exact atomic_bind (atomic_revise (fun _ _ => trivial) timeout key precondition fun _ => body)
  | merge key patch precondition =>
    exact atomic_bind (atomic_revise (fun _ _ => trivial) timeout key precondition fun body => body.union patch)
  | delete key precondition => exact atomic_bind (atomic_delete (fun _ _ => trivial) timeout key precondition)
  | deleteType type => exact atomic_bind (atomic_deleteType (fun _ _ => trivial) timeout type)
  | link a b => exact atomic_bind (atomic_link (fun _ _ => trivial) timeout a b)
  | unlink a b => exact atomic_bind (atomic_unlink (fun _ _ => trivial) timeout a b)
  | createNode path kind => exact atomic_bind (atomic_createNode (fun _ _ => trivial) timeout path kind)
  | putFile path contentType body precondition =>
    exact atomic_bind (atomic_putFile (fun _ _ => trivial) timeout path contentType body precondition)
  | moveNode source target overwrite precondition =>
    exact atomic_bind (atomic_moveNode (fun _ _ => trivial) timeout source target overwrite precondition)
  | deleteNode path recursive precondition =>
    exact atomic_bind (atomic_deleteNode (fun _ _ => trivial) timeout path recursive precondition)
  | setProperties path set remove =>
    exact atomic_bind (atomic_setProperties (fun _ _ => trivial) timeout path set remove)
  | list path withChildren => exact atomic_bind (atomic_list (fun _ _ => trivial) path withChildren)

end Mutation

end EntityStore
