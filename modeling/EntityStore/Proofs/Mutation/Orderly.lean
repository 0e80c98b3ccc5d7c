import EntityStore.Mutation.OfEntities
import EntityStore.Mutation.OfResources
import EntityStore.Proofs.Entities.Removal

/-!
# The order of locks

Every operation asks for the locks of ascending paths, whatever it reads from the stores meanwhile, and ends with
the first refusal. The locks of a subtree or of all entities of a type come in a second phase, after that of the path
above them. Main statement: `orderly_operation`.
-/
namespace EntityStore

/-- An operation that asks for no lock but above those it has asked for, ends as soon as one is refused, and
otherwise not with a refusal; `post` tells of a result and of the paths that were asked for until then. -/
def Procedure.Orderly {α : Type} (post : α → List Path → Prop) (asked : List Path) :
    Procedure (Except Failure α) → Prop
  | .done (.ok a) => post a asked
  | .done (.error f) => ∀ key waited, f ≠ .lock (.overflow key waited)
  | .clock next => ∀ now, (next now).Orderly post asked
  | .lock path _ _ next =>
    (∀ p ∈ asked, compare p path = .lt) ∧
      (∀ g, (next (.ok g)).Orderly post (asked ++ [path])) ∧ ∀ e, next (.error e) = .done (.error (.lock e))
  | .ensure _ next => (next (.ok ())).Orderly post asked ∧ ∀ key, (next (.error (.expired key))).Orderly post asked
  | .access _ next => ∀ now s, (next now s).Orderly post asked

namespace Mutation

open Operation Procedure

variable {α β : Type} {post : α → List Path → Prop} {asked : List Path}

theorem orderly_pure {a : α} (h : post a asked) : Orderly post asked (pure a : Operation α) := h

theorem orderly_bind {x : Operation β} {f : β → Operation α}
    (h : Orderly (fun b asked => Orderly post asked (f b)) asked x) : Orderly post asked (x >>= f : Operation α) := by
  change Orderly post asked (Procedure.bind x (ExceptT.bindCont f))
  change Procedure (Except Failure β) at x
  induction x generalizing asked with
  | done r =>
    cases r with
    | ok b => exact h
    | error e => exact h
  | clock next ih => exact fun now => ih now (h now)
  | lock path kind deadline next ih =>
    obtain ⟨habove, hgranted, hrefused⟩ := h
    refine ⟨habove, fun g => ih (.ok g) (hgranted g), fun e => ?_⟩
    change (next (.error e)).bind (ExceptT.bindCont f) = _
    rw [hrefused]
    rfl
  | ensure guard next ih => exact ⟨ih _ h.1, fun key => ih _ (h.2 key)⟩
  | access update next ih => exact fun now s => ih now s (h now s)

/-! ## Single steps -/

theorem orderly_fail {f : Failure} (h : ∀ key waited, f ≠ .lock (.overflow key waited)) :
    Orderly post asked (fail f : Operation α) := h

theorem orderly_ofStore (e : StoreError) : Orderly post asked (fail (.ofStore e) : Operation α) := by
  refine orderly_fail fun key waited => ?_
  cases e <;> exact nofun

theorem orderly_lock {post : Guard → List Path → Prop} {timeout : Nat} {path : Path} {kind : LockKind}
    (habove : ∀ p ∈ asked, compare p path = .lt) (h : ∀ g, post g (asked ++ [path])) :
    Orderly post asked (lock timeout path kind) :=
  fun _ => ⟨habove, h, fun _ => rfl⟩

theorem orderly_lockEach {post : Unit → List Path → Prop} {deadline : Nat} {kind : LockKind} {paths : List Path}
    (hascending : paths.Pairwise fun p q => compare p q = .lt)
    (habove : ∀ p ∈ asked, ∀ q ∈ paths, compare p q = .lt) (h : post () (asked ++ paths)) :
    Orderly post asked (lockEach deadline kind paths) := by
  induction paths generalizing asked with
  | nil => exact orderly_pure (by simpa using h)
  | cons path rest ih =>
    obtain ⟨hpath, hrest⟩ := List.pairwise_cons.mp hascending
    refine orderly_bind ⟨fun p hp => habove p hp path List.mem_cons_self, fun g => ?_, fun _ => rfl⟩
    refine ih hrest (fun p hp q hq => ?_) (by simpa using h)
    rcases List.mem_append.mp hp with hp | hp
    · exact habove p hp q (List.mem_cons_of_mem _ hq)
    · exact List.mem_singleton.mp hp ▸ hpath q hq

theorem orderly_lockAll {post : Unit → List Path → Prop} {timeout : Nat} {kind : LockKind} {paths : List Path}
    (habove : ∀ p ∈ asked, ∀ q ∈ paths, compare p q = .lt) (h : ∀ asked, post () asked) :
    Orderly post asked (lockAll timeout paths kind) :=
  orderly_bind fun _ => orderly_lockEach (LockRegistry.ascending_inOrder paths)
    (fun p hp q hq => habove p hp q (LockRegistry.mem_inOrder_iff.mp hq)) (h _)

theorem orderly_ensure {post : Unit → List Path → Prop} {guard : Guard} (h : post () asked) :
    Orderly post asked (ensure guard) :=
  ⟨h, fun _ => nofun⟩

theorem orderly_ask {read : Stores → α} (h : ∀ s, post (read s) asked) : Orderly post asked (ask read) :=
  fun _ s => h s

theorem orderly_askStore {read : Stores → Except StoreError α} (h : ∀ s a, read s = .ok a → post a asked) :
    Orderly post asked (askStore read) := by
  refine orderly_bind (orderly_ask fun s => ?_)
  cases hread : read s with
  | ok a => exact orderly_pure (h s a hread)
  | error e => exact orderly_ofStore e

theorem orderly_change {step : Nat → Stores → Except StoreError (α × Stores)} (h : ∀ a, post a asked) :
    Orderly post asked (change step) := by
  intro now s
  cases hstep : step now s with
  | ok result =>
    simp only [hstep]
    exact h result.1
  | error e =>
    simp only [hstep]
    exact orderly_ofStore e

theorem orderly_checkTag {post : Unit → List Path → Prop} {resource : String} {precondition : Option Precondition}
    {tag : Option ETag} (h : post () asked) : Orderly post asked (checkTag resource precondition tag) := by
  unfold checkTag
  split
  · exact orderly_pure h
  · split
    · exact orderly_pure h
    · exact orderly_fail nofun

theorem orderly_current {post : Entity → List Path → Prop} {key : EntityKey} (h : ∀ e, post e asked) :
    Orderly post asked (current key) := by
  refine orderly_bind (orderly_ask fun s => ?_)
  split
  · exact orderly_pure (h _)
  · exact orderly_fail nofun

theorem orderly_node {post : Node → List Path → Prop} {path : Path} (h : ∀ n, post n asked) :
    Orderly post asked (node path) := by
  refine orderly_bind (orderly_ask fun s => ?_)
  split
  · exact orderly_pure (h _)
  · exact orderly_fail nofun

/-! ## Operations on entities -/

/-- The removals in a row do not fail. -/
theorem removeEach_cons (key : EntityKey) (rest : List EntityKey) :
    removeEach (key :: rest) = (do
      let gone ← changeEntities fun _ s => .ok (s.discard key)
      return gone + (← removeEach rest) : Operation Nat) := by
  rw [removeEach]
  congr 2
  funext now s
  rcases s.discard_cases key with ⟨e, s', hremove, _, hdiscard⟩ | ⟨hremove, _, hdiscard⟩
  · simp only [hremove, hdiscard]
  · simp only [hremove, hdiscard]

section
variable {post : Outcome → List Path → Prop} (hpost : ∀ o asked, post o asked) (timeout : Nat)
include hpost

theorem orderly_create (key : EntityKey) (body : Fields) : Orderly post [] (create timeout key body) :=
  orderly_bind (orderly_lock nofun fun _ => orderly_bind (orderly_change fun _ => orderly_pure (hpost _ _)))

theorem orderly_revise (key : EntityKey) (precondition : Precondition) (next : Fields → Fields) :
    Orderly post [] (revise timeout key precondition next) := by
  refine orderly_bind (orderly_lock nofun fun guard => ?_)
  refine orderly_bind (orderly_current fun e => ?_)
  refine orderly_bind (orderly_checkTag ?_)
  refine orderly_bind (orderly_ensure ?_)
  exact orderly_bind (orderly_change fun e => orderly_pure (hpost _ _))

theorem orderly_delete (key : EntityKey) (precondition : Precondition) :
    Orderly post [] (delete timeout key precondition) := by
  refine orderly_bind (orderly_lock nofun fun guard => ?_)
  refine orderly_bind (orderly_current fun e => ?_)
  refine orderly_bind (orderly_checkTag ?_)
  exact orderly_bind (orderly_change fun _ => orderly_pure (hpost _ _))

omit hpost in
theorem orderly_removeEach {post : Nat → List Path → Prop} (h : ∀ n, post n asked) (keys : List EntityKey) :
    Orderly post asked (removeEach keys) := by
  induction keys generalizing post with
  | nil => exact orderly_pure (h 0)
  | cons key rest ih =>
    refine orderly_bind (orderly_change fun gone => ?_)
    exact orderly_bind (ih fun n => orderly_pure (h _))

omit hpost in
/-- The path of a type comes before those of its entities. -/
theorem compare_typePath {type : String} {s : Entities} {p : Path}
    (h : p ∈ (s.keysOf type).map EntityKey.path) : compare (EntityKey.typePath type) p = .lt := by
  obtain ⟨key, hkey, rfl⟩ := List.mem_map.mp h
  obtain rfl : key.type = type := by simpa using (List.mem_filter.mp hkey).2
  exact Path.compare_eq_lt_of_isAbove (Path.isAbove_iff.mpr ⟨[key.id], by simp, rfl⟩)

theorem orderly_deleteType (type : String) : Orderly post [] (deleteType timeout type) := by
  refine orderly_bind (orderly_lock nofun fun guard => ?_)
  refine orderly_bind (orderly_ask fun s => ?_)
  refine orderly_bind (orderly_lockAll (fun p hp q hq => ?_) fun asked => ?_)
  · obtain rfl : p = EntityKey.typePath type := by simpa using hp
    exact compare_typePath hq
  · exact orderly_bind (orderly_removeEach (fun n => orderly_pure (hpost _ _)) _)

end

section
variable {post : Bool → List Path → Prop} (hpost : ∀ changed asked, post changed asked) (timeout : Nat)
include hpost

theorem orderly_link (a b : EntityKey) : Orderly post [] (link timeout a b) :=
  orderly_bind (orderly_lockAll nofun fun _ => orderly_change fun _ => hpost _ _)

theorem orderly_unlink (a b : EntityKey) : Orderly post [] (unlink timeout a b) :=
  orderly_bind (orderly_lockAll nofun fun _ => orderly_change fun _ => hpost _ _)

end

/-! ## Operations on resources -/

section
variable {post : Outcome → List Path → Prop} (hpost : ∀ o asked, post o asked) (timeout : Nat)
include hpost

theorem orderly_createNode (path : Path) (kind : NodeKind) : Orderly post [] (createNode timeout path kind) := by
  unfold createNode
  split
  · exact orderly_fail nofun
  · refine orderly_bind (orderly_lock nofun fun guard => ?_)
    exact orderly_bind (orderly_change fun n => orderly_pure (hpost _ _))

theorem orderly_putFile (path : Path) (contentType body : String) (precondition : Option Precondition) :
    Orderly post [] (putFile timeout path contentType body precondition) := by
  refine orderly_bind (orderly_lock nofun fun guard => ?_)
  refine orderly_bind (orderly_ask fun s => ?_)
  refine orderly_bind (orderly_checkTag ?_)
  exact orderly_bind (orderly_change fun _ => orderly_pure (hpost _ _))

theorem orderly_moveNode (source target : Path) (overwrite : Bool) (precondition : Option Precondition) :
    Orderly post [] (moveNode timeout source target overwrite precondition) := by
  have hmove : ∀ asked, Orderly post asked (do
      let replaced ← changeResources fun now r => r.move now source target overwrite
      let moved ← node target
      return if replaced then .replaced moved.etag else .created moved.etag : Operation Outcome) := fun asked =>
    orderly_bind (orderly_change fun _ => orderly_bind (orderly_node fun _ => orderly_pure (hpost _ _)))
  unfold moveNode
  split
  · exact orderly_fail nofun
  · refine orderly_bind (orderly_lockAll nofun fun asked => ?_)
    refine orderly_bind (orderly_node fun n => ?_)
    refine orderly_bind (orderly_checkTag ?_)
    split
    · refine orderly_bind (orderly_ask fun s => ?_)
      split
      · exact orderly_bind (orderly_fail nofun)
      · exact hmove asked
    · exact hmove asked

theorem orderly_deleteNode (path : Path) (recursive : Bool) (precondition : Option Precondition) :
    Orderly post [] (deleteNode timeout path recursive precondition) := by
  refine orderly_bind (orderly_lock nofun fun guard => ?_)
  refine orderly_bind (orderly_node fun n => ?_)
  refine orderly_bind (orderly_checkTag ?_)
  split
  · refine orderly_bind (orderly_askStore fun s below hbelow => ?_)
    refine orderly_bind (orderly_lockAll (fun p hp q hq => ?_) fun asked => ?_)
    · obtain rfl : p = path := by simpa using hp
      unfold Resources.descendants at hbelow
      split at hbelow
      · cases hbelow
        exact Path.compare_eq_lt_of_isAbove (Resources.mem_below_iff.mp hq).2
      · cases hbelow
    · exact orderly_bind (orderly_change fun removed => orderly_pure (hpost _ _))
  · exact orderly_bind (orderly_change fun _ => orderly_pure (hpost _ _))

theorem orderly_setProperties (path : Path) (set : OrderedMap String String) (remove : List String) :
    Orderly post [] (setProperties timeout path set remove) :=
  orderly_bind (orderly_lock nofun fun _ => orderly_bind (orderly_change fun _ => orderly_pure (hpost _ _)))

end

theorem orderly_readEach {post : List Listed → List Path → Prop} (h : ∀ lines, post lines asked) (paths : List Path) :
    Orderly post asked (readEach paths) := by
  induction paths generalizing post with
  | nil => exact orderly_pure (h [])
  | cons path rest ih =>
    refine orderly_bind (orderly_ask fun s => ?_)
    split <;> exact orderly_bind (ih fun lines => orderly_pure (h _))

theorem orderly_list {post : List Listed → List Path → Prop} (h : ∀ lines asked, post lines asked) (path : Path)
    (withChildren : Bool) : Orderly post [] (list path withChildren) := by
  refine orderly_bind (orderly_node fun n => ?_)
  split
  · refine orderly_bind (orderly_ask fun s => ?_)
    split
    · exact orderly_bind (orderly_readEach (fun lines => orderly_pure (h _ _)) _)
    · exact orderly_pure (h _ _)
    · exact orderly_ofStore _
  · exact orderly_pure (h _ _)

/-! ## All operations -/

/-- An operation with its arguments. -/
inductive Call where
  | create (key : EntityKey) (body : Fields)
  | replace (key : EntityKey) (body : Fields) (precondition : Precondition)
  | merge (key : EntityKey) (patch : Fields) (precondition : Precondition)
  | delete (key : EntityKey) (precondition : Precondition)
  | deleteType (type : String)
  | link (a b : EntityKey)
  | unlink (a b : EntityKey)
  | createNode (path : Path) (kind : NodeKind)
  | putFile (path : Path) (contentType body : String) (precondition : Option Precondition)
  | moveNode (source target : Path) (overwrite : Bool) (precondition : Option Precondition)
  | deleteNode (path : Path) (recursive : Bool) (precondition : Option Precondition)
  | setProperties (path : Path) (set : OrderedMap String String) (remove : List String)
  | list (path : Path) (withChildren : Bool)

inductive Answer where
  | outcome (o : Outcome)
  | changed (b : Bool)
  | listing (lines : List Listed)

def Call.operation (timeout : Nat) : Call → Operation Answer
  | create key body => return .outcome (← Mutation.create timeout key body)
  | replace key body precondition => return .outcome (← Mutation.replace timeout key body precondition)
  | merge key patch precondition => return .outcome (← Mutation.merge timeout key patch precondition)
  | delete key precondition => return .outcome (← Mutation.delete timeout key precondition)
  | deleteType type => return .outcome (← Mutation.deleteType timeout type)
  | link a b => return .changed (← Mutation.link timeout a b)
  | unlink a b => return .changed (← Mutation.unlink timeout a b)
  | createNode path kind => return .outcome (← Mutation.createNode timeout path kind)
  | putFile path contentType body precondition =>
    return .outcome (← Mutation.putFile timeout path contentType body precondition)
  | moveNode source target overwrite precondition =>
    return .outcome (← Mutation.moveNode timeout source target overwrite precondition)
  | deleteNode path recursive precondition =>
    return .outcome (← Mutation.deleteNode timeout path recursive precondition)
  | setProperties path set remove => return .outcome (← Mutation.setProperties timeout path set remove)
  | list path withChildren => return .listing (← Mutation.list path withChildren)

theorem orderly_operation (timeout : Nat) (call : Call) : Orderly (fun _ _ => True) [] (call.operation timeout) := by
  cases call with
  | create key body => exact orderly_bind (orderly_create (fun _ _ => trivial) timeout key body)
  | replace key body precondition =>
    exact orderly_bind (orderly_revise (fun _ _ => trivial) timeout key precondition fun _ => body)
  | merge key patch precondition =>
    exact orderly_bind (orderly_revise (fun _ _ => trivial) timeout key precondition fun body => body.union patch)
  | delete key precondition => exact orderly_bind (orderly_delete (fun _ _ => trivial) timeout key precondition)
  | deleteType type => exact orderly_bind (orderly_deleteType (fun _ _ => trivial) timeout type)
  | link a b => exact orderly_bind (orderly_link (fun _ _ => trivial) timeout a b)
  | unlink a b => exact orderly_bind (orderly_unlink (fun _ _ => trivial) timeout a b)
  | createNode path kind => exact orderly_bind (orderly_createNode (fun _ _ => trivial) timeout path kind)
  | putFile path contentType body precondition =>
    exact orderly_bind (orderly_putFile (fun _ _ => trivial) timeout path contentType body precondition)
  | moveNode source target overwrite precondition =>
    exact orderly_bind (orderly_moveNode (fun _ _ => trivial) timeout source target overwrite precondition)
  | deleteNode path recursive precondition =>
    exact orderly_bind (orderly_deleteNode (fun _ _ => trivial) timeout path recursive precondition)
  | setProperties path set remove =>
    exact orderly_bind (orderly_setProperties (fun _ _ => trivial) timeout path set remove)
  | list path withChildren => exact orderly_bind (orderly_list (fun _ _ => trivial) path withChildren)

end Mutation

end EntityStore
