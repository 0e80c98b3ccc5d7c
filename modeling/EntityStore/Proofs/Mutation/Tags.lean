import EntityStore.Proofs.Entities.WellFormed
import EntityStore.Proofs.Mutation.Orderly
import EntityStore.Proofs.Mutation.Steps

/-!
# Tags that are spent

A change under the precondition of a tag leaves no entity with that tag, and the tags of an entity never come back
while it is there. After a deletion the versions start again, and only the time of the creation tells the new entity
from the old. Main statements: `created_between` and `not_spent_once`.
-/
namespace EntityStore

/-- An operation that ends with `post` of its answer, of the time of its last access and of the stores, whatever the
locks answer and however much time passes between its steps. `now` is the time of the last access so far. -/
def Procedure.Ends {α : Type} (post : α → Nat → Stores → Prop) (now : Nat) (s : Stores) : Procedure α → Prop
  | .done a => post a now s
  | .clock next => ∀ reading, (next reading).Ends post now s
  | .lock _ _ _ next => ∀ r, (next r).Ends post now s
  | .ensure _ next => ∀ r, (next r).Ends post now s
  | .access update next => ∀ later, now ≤ later → (next later s).Ends post later (update later s)

namespace Caller

variable {α : Type} {post : α → Nat → Stores → Prop} {c c' : Caller α} {s s' : Service} {last : Nat}

theorem ends_step (h : c.rest.Ends post last s.stores) (hlast : last ≤ s.now) (hstep : Step (c, s) (c', s')) :
    ∃ last', c'.rest.Ends post last' s'.stores ∧ last' ≤ s'.now := by
  cases hstep with
  | granted hgranted =>
    obtain ⟨locks, _, rfl⟩ := exists_of_tryAcquire hgranted
    exact ⟨last, h _, hlast⟩
  | refused _ hrefused =>
    obtain ⟨locks, _, rfl⟩ := exists_of_tryAcquire hrefused
    exact ⟨last, h _, hlast⟩
  | accessed => exact ⟨s.now, h _ hlast, Nat.le_refl _⟩
  | clock | ensured => exact ⟨last, h _, hlast⟩
  | released => exact ⟨last, h, hlast⟩
  | waited => exact ⟨last, h, Nat.le_trans hlast (Nat.le_add_right _ _)⟩

theorem ends_of_reaches {x y : Caller α × Service} (hreaches : Reaches x y) (h : x.1.rest.Ends post last x.2.stores)
    (hlast : last ≤ x.2.now) : ∃ last', y.1.rest.Ends post last' y.2.stores ∧ last' ≤ y.2.now := by
  induction hreaches with
  | refl => exact ⟨last, h, hlast⟩
  | tail _ hstep ih =>
    obtain ⟨last', h', hlast'⟩ := ih
    exact ends_step h' hlast' hstep

end Caller

namespace Entities

/-- The entity under a key, if there is one afterwards, was there before and has become no older. -/
def Continues (key : EntityKey) (s s' : Entities) : Prop :=
  ∀ e', s'.find? key = some e' → ∃ e, s.find? key = some e ∧ e.version ≤ e'.version ∧ e.updated ≤ e'.updated

/-- The entity under a key, if there is one, has left a tag behind. -/
def Past (key : EntityKey) (tag : ETag) (s : Entities) : Prop :=
  ∀ e, s.find? key = some e → tag.updated < e.updated ∨ tag.updated = e.updated ∧ tag.version < e.version

/-- Nothing was changed later than now. -/
def Timely (now : Nat) (s : Entities) : Prop := ∀ key e, s.find? key = some e → e.updated ≤ now

variable {key : EntityKey} {tag : ETag} {s s' s'' : Entities} {now later : Nat}

theorem Continues.refl : Continues key s s := fun e he => ⟨e, he, Nat.le_refl _, Int.le_refl _⟩

theorem Continues.trans (h : Continues key s s') (h' : Continues key s' s'') : Continues key s s'' := by
  intro e'' he''
  obtain ⟨e', he', hversion', hupdated'⟩ := h' e'' he''
  obtain ⟨e, he, hversion, hupdated⟩ := h e' he'
  exact ⟨e, he, Nat.le_trans hversion hversion', Int.le_trans hupdated hupdated'⟩

theorem Past.mono (h : Past key tag s) (hcontinues : Continues key s s') : Past key tag s' := by
  intro e' he'
  obtain ⟨e, he, hversion, hupdated⟩ := hcontinues e' he'
  rcases h e he with hlt | ⟨heq, hlt⟩ <;> omega

theorem Past.etag_ne (h : Past key tag s) {e : Entity} (he : s.find? key = some e) : e.etag ≠ tag := by
  rintro rfl
  rcases h e he with hlt | ⟨_, hlt⟩
  · exact Int.lt_irrefl _ hlt
  · exact Nat.lt_irrefl _ hlt

theorem timely_empty : Timely now empty := nofun

theorem Timely.mono (h : Timely now s) (hle : now ≤ later) : Timely later s :=
  fun key e he => Int.le_trans (h key e he) (Int.ofNat_le.mpr hle)

theorem Timely.write (h : Timely now s) {body : Fields} {expected : Option Nat} {e : Entity}
    (hwrite : s.write now key body expected = .ok (e, s')) : Timely now s' := by
  intro k e' he'
  rw [find?_write hwrite] at he'
  split at he'
  · cases he'
    rcases write_cases hwrite with ⟨old, hold, _, rfl, _⟩ | ⟨_, _, rfl, _⟩
    · exact Int.max_le.mpr ⟨Int.le_refl _, h key old hold⟩
    · exact Int.le_refl _
  · exact h k e' he'

/-- What keeps all entities and their times keeps them timely. -/
theorem Timely.of_kept (h : Timely now s)
    (hkept : ∀ k {e'}, s'.find? k = some e' → ∃ e, s.find? k = some e ∧ e' = { e with links := e'.links }) :
    Timely now s' := by
  intro k e' he'
  obtain ⟨e, he, heq⟩ := hkept k he'
  rw [heq]
  exact h k e he

theorem Continues.of_kept
    (hkept : ∀ k {e'}, s'.find? k = some e' → ∃ e, s.find? k = some e ∧ e' = { e with links := e'.links }) :
    Continues key s s' := by
  intro e' he'
  obtain ⟨e, he, heq⟩ := hkept key he'
  refine ⟨e, he, ?_⟩
  rw [heq]
  exact ⟨Nat.le_refl _, Int.le_refl _⟩

/-- A revision continues what was there, and leaves its tag behind. -/
theorem of_revision {body : Fields} {old e : Entity} (hold : s.find? key = some old)
    (h : s.write now key body (some old.version) = .ok (e, s')) :
    (∀ k, Continues k s s') ∧ Past key old.etag s' := by
  have hrevised : old.version < e.version ∧ old.updated ≤ e.updated := by
    rcases write_cases h with ⟨o, ho, _, rfl, _⟩ | ⟨hnone, _⟩
    · obtain rfl := Option.some.inj (hold.symm.trans ho)
      exact ⟨Nat.lt_succ_self _, Int.le_max_right _ _⟩
    · rw [hold] at hnone
      cases hnone
  refine ⟨fun k e' he' => ?_, fun e' he' => ?_⟩
  · rw [find?_write h] at he'
    split at he'
    · rename_i hk
      subst hk
      cases he'
      exact ⟨old, hold, Nat.le_of_lt hrevised.1, hrevised.2⟩
    · exact ⟨e', he', Nat.le_refl _, Int.le_refl _⟩
  · rw [find?_write h, if_pos rfl] at he'
    cases he'
    change old.updated < e.updated ∨ old.updated = e.updated ∧ old.version < e.version
    omega

/-- A creation comes at its key only, and leaves a tag with the time. -/
theorem of_creation {body : Fields} {e : Entity} (h : s.write now key body (some 0) = .ok (e, s')) :
    e.etag = ⟨1, now⟩ ∧ s'.find? key = some e ∧ ∀ k, k ≠ key → s'.find? k = s.find? k := by
  refine ⟨?_, by rw [find?_write h, if_pos rfl], fun k hk => by rw [find?_write h, if_neg hk]⟩
  rcases write_cases h with ⟨_, _, hexpected, _⟩ | ⟨_, _, rfl, _⟩
  · exact absurd rfl (hexpected 0 rfl).2
  · rfl

end Entities

namespace Mutation

open Operation Procedure

variable {α β : Type} {post : Except Failure α → Nat → Stores → Prop} {now : Nat} {s : Stores}

theorem ends_pure {a : α} (h : post (.ok a) now s) : Ends post now s (pure a : Operation α) := h

theorem ends_bind {x : Operation β} {f : β → Operation α}
    (h : Ends (fun r now s => match r with
      | .ok b => Ends post now s (f b)
      | .error e => post (.error e) now s) now s x) : Ends post now s (x >>= f : Operation α) := by
  change Ends post now s (Procedure.bind x (ExceptT.bindCont f))
  change Procedure (Except Failure β) at x
  induction x generalizing now s with
  | done r =>
    cases r with
    | ok b => exact h
    | error e => exact h
  | clock next ih => exact fun reading => ih reading (h reading)
  | lock path kind deadline next ih => exact fun r => ih r (h r)
  | ensure guard next ih => exact fun r => ih r (h r)
  | access update next ih => exact fun later hle => ih later s (h later hle)

theorem ends_ofLock {r : Except LockError α} (hok : ∀ a, post (.ok a) now s) (hfails : ∀ f, post (.error f) now s) :
    Ends post now s (ofLock r) := by
  cases r with
  | ok a => exact hok a
  | error e => exact hfails _

theorem ends_lock {post : Except Failure Guard → Nat → Stores → Prop} {timeout : Nat} {path : Path} {kind : LockKind}
    (hok : ∀ g, post (.ok g) now s) (hfails : ∀ f, post (.error f) now s) :
    Ends post now s (lock timeout path kind) :=
  fun _ _ => ends_ofLock hok hfails

theorem ends_lockEach {post : Except Failure Unit → Nat → Stores → Prop} {deadline : Nat} {kind : LockKind}
    {paths : List Path} (hok : post (.ok ()) now s) (hfails : ∀ f, post (.error f) now s) :
    Ends post now s (lockEach deadline kind paths) := by
  induction paths with
  | nil => exact ends_pure hok
  | cons path rest ih => exact ends_bind fun _ => ends_ofLock (fun _ => ih) hfails

theorem ends_lockAll {post : Except Failure Unit → Nat → Stores → Prop} {timeout : Nat} {kind : LockKind}
    {paths : List Path} (hok : post (.ok ()) now s) (hfails : ∀ f, post (.error f) now s) :
    Ends post now s (lockAll timeout paths kind) :=
  ends_bind fun _ => ends_lockEach hok hfails

theorem ends_ensure {post : Except Failure Unit → Nat → Stores → Prop} {guard : Guard} (hok : post (.ok ()) now s)
    (hfails : ∀ f, post (.error f) now s) : Ends post now s (ensure guard) :=
  fun _ => ends_ofLock (fun _ => hok) hfails

theorem ends_ask {read : Stores → α} (h : ∀ later, now ≤ later → post (.ok (read s)) later s) :
    Ends post now s (ask read) := h

theorem ends_current {post : Except Failure Entity → Nat → Stores → Prop} {key : EntityKey}
    (hok : ∀ e later, now ≤ later → s.entities.find? key = some e → post (.ok e) later s)
    (hfails : ∀ f later, now ≤ later → post (.error f) later s) : Ends post now s (current key) := by
  refine ends_bind (ends_ask fun later hle => ?_)
  cases hfind : s.entities.find? key with
  | none => exact hfails _ later hle
  | some e => exact ends_pure (hok e later hle hfind)

theorem ends_checkTag {post : Except Failure Unit → Nat → Stores → Prop} {resource : String} {p : Precondition}
    {tag : ETag} (hok : p.admits tag = true → post (.ok ()) now s) (hfails : ∀ f, post (.error f) now s) :
    Ends post now s (checkTag resource (some p) (some tag)) := by
  unfold checkTag
  cases hadmits : p.admits tag with
  | true =>
    simp only [Option.any_some, hadmits, if_true]
    exact hok hadmits
  | false =>
    simp only [Option.any_some, hadmits]
    exact hfails _

theorem ends_changeEntities {step : Nat → Entities → Except StoreError (α × Entities)}
    (hok : ∀ later a entities, now ≤ later → step later s.entities = .ok (a, entities) →
      post (.ok a) later { s with entities })
    (hfails : ∀ f later, now ≤ later → post (.error f) later s) : Ends post now s (changeEntities step) := by
  intro later hle
  cases hstep : step later s.entities with
  | ok result =>
    simp only [hstep, Except.map]
    exact hok later _ _ hle hstep
  | error e =>
    simp only [hstep, Except.map]
    exact hfails _ later hle

/-! ## What a call does to the tags -/

/-- A change under the precondition of a tag. -/
def Call.Spends (key : EntityKey) (tag : ETag) : Call → Prop
  | .replace k _ (.tag t) | .merge k _ (.tag t) | .delete k (.tag t) => k = key ∧ t = tag
  | _ => False

/-- Calls that are about entities. -/
def Call.OnEntities : Call → Prop
  | .create _ _ | .replace _ _ _ | .merge _ _ _ | .delete _ _ | .deleteType _ | .link _ _ | .unlink _ _ => True
  | _ => False

/-- All entities continue. -/
structure Kept (now : Nat) (s : Entities) (later : Nat) (s' : Entities) : Prop where
  le : now ≤ later
  timely : s.Timely now → s'.Timely later
  continues : ∀ key, s.Continues key s'

/-- What a call does between two times: all entities continue but one that it creates, with the time in its tag, and
a tag that it spends was that of the entity and is left behind. -/
structure Effect (call : Call) (now : Nat) (s : Entities) (answer : Except Failure Answer) (later : Nat)
    (s' : Entities) : Prop where
  le : now ≤ later
  timely : s.Timely now → s'.Timely later
  continues : ∀ key, s.Continues key s' ∨ ∃ body, ∃ t : Nat, call = .create key body ∧
    answer = .ok (.outcome (.created ⟨1, t⟩)) ∧ now ≤ t ∧ ∀ e, s'.find? key = some e → e.etag = ⟨1, t⟩
  spent : ∀ key tag r, call.Spends key tag → answer = .ok r →
    (∃ e, s.find? key = some e ∧ e.etag = tag) ∧ s'.Past key tag

variable {call : Call} {answer : Except Failure Answer} {later : Nat} {entities entities' : Entities}

theorem Kept.sleep (hle : now ≤ later) : Kept now entities later entities :=
  ⟨hle, fun h => h.mono hle, fun _ => .refl⟩

theorem Kept.effect (h : Kept now entities later entities')
    (hspent : ∀ key tag r, call.Spends key tag → answer = .ok r →
      (∃ e, entities.find? key = some e ∧ e.etag = tag) ∧ entities'.Past key tag) :
    Effect call now entities answer later entities' :=
  ⟨h.le, h.timely, fun key => .inl (h.continues key), hspent⟩

/-- A failure leaves the entities as they are. -/
theorem effect_error (hle : now ≤ later) (f : Failure) : Effect call now entities (.error f) later entities :=
  (Kept.sleep hle).effect fun _ _ _ _ h => nomatch h

theorem Effect.sleep {final : Nat} (h : Effect call now entities answer later entities') (hle : later ≤ final) :
    Effect call now entities answer final entities' :=
  ⟨Nat.le_trans h.le hle, fun htimely => (h.timely htimely).mono hle, h.continues, h.spent⟩

/-- What a call comes to, whatever the locks answer. -/
abbrev EndsWithEffect (timeout : Nat) (call : Call) (now : Nat) (s : Stores) : Prop :=
  Ends (fun answer later s' => Effect call now s.entities answer later s'.entities) now s (call.operation timeout)

theorem ends_create (timeout : Nat) (key : EntityKey) (body : Fields) :
    EndsWithEffect timeout (.create key body) now s := by
  refine ends_bind (ends_bind (ends_lock (fun guard => ?_) fun f => effect_error (Nat.le_refl _) f))
  refine ends_bind (ends_changeEntities (fun later e entities hle hwrite => ?_) fun f later hle => effect_error hle f)
  obtain ⟨htag, hfind, hothers⟩ := Entities.of_creation hwrite
  refine ends_pure (ends_pure ⟨hle, fun htimely => (htimely.mono hle).write hwrite, fun k => ?_, nofun⟩)
  by_cases hk : k = key
  · subst hk
    refine .inr ⟨body, later, rfl, by rw [htag], hle, fun e' he' => ?_⟩
    rw [hfind] at he'
    cases he'
    exact htag
  · exact .inl fun e' he' => ⟨e', hothers k hk ▸ he', Nat.le_refl _, Int.le_refl _⟩

/-- Revisions leave a tag behind that they spend. -/
theorem ends_revise {call : Call} {timeout : Nat} {key : EntityKey} {precondition : Precondition}
    {next : Fields → Fields}
    (hcall : call.operation timeout = do return .outcome (← revise timeout key precondition next))
    (hspends : ∀ k tag, call.Spends k tag → k = key ∧ precondition = .tag tag) :
    EndsWithEffect timeout call now s := by
  rw [EndsWithEffect, hcall]
  refine ends_bind (ends_bind (ends_lock (fun guard => ?_) fun f => effect_error (Nat.le_refl _) f))
  refine ends_bind (ends_current (fun old read hread hold => ?_) fun f later hle => effect_error hle f)
  refine ends_bind (ends_checkTag (fun hadmits => ?_) fun f => effect_error hread f)
  refine ends_bind (ends_ensure ?_ fun f => effect_error hread f)
  refine ends_bind (ends_changeEntities (fun later e entities hlater hwrite => ?_) fun f later hlater =>
    effect_error (Nat.le_trans hread hlater) f)
  have hle : now ≤ later := Nat.le_trans hread hlater
  obtain ⟨hcontinues, hpast⟩ := Entities.of_revision hold hwrite
  have hkept : Kept now s.entities later entities :=
    ⟨hle, fun htimely => (htimely.mono hle).write hwrite, hcontinues⟩
  refine ends_pure (ends_pure (hkept.effect fun k tag r hspent _ => ?_))
  obtain ⟨rfl, rfl⟩ := hspends k tag hspent
  obtain rfl : tag = old.etag := by simpa [Precondition.admits] using hadmits
  exact ⟨⟨old, hold, rfl⟩, hpast⟩

theorem kept_remove {key : EntityKey} {expected : Option Nat} {e : Entity} (hle : now ≤ later)
    (h : entities.remove key expected = .ok (e, entities')) : Kept now entities later entities' :=
  ⟨hle, fun htimely => (htimely.mono hle).of_kept (Entities.kept_of_remove h), fun _ =>
    .of_kept (Entities.kept_of_remove h)⟩

theorem kept_discard (hle : now ≤ later) (key : EntityKey) : Kept now entities later (entities.discard key).2 := by
  rcases entities.discard_cases key with ⟨e, s', hremove, _, hdiscard⟩ | ⟨_, _, hdiscard⟩
  · rw [hdiscard]
    exact kept_remove hle hremove
  · rw [hdiscard]
    exact .sleep hle

theorem ends_delete (timeout : Nat) (key : EntityKey) (precondition : Precondition) :
    EndsWithEffect timeout (.delete key precondition) now s := by
  refine ends_bind (ends_bind (ends_lock (fun guard => ?_) fun f => effect_error (Nat.le_refl _) f))
  refine ends_bind (ends_current (fun old read hread hold => ?_) fun f later hle => effect_error hle f)
  refine ends_bind (ends_checkTag (fun hadmits => ?_) fun f => effect_error hread f)
  refine ends_bind (ends_changeEntities (fun later e entities hlater hremove => ?_) fun f later hlater =>
    effect_error (Nat.le_trans hread hlater) f)
  refine ends_pure (ends_pure ((kept_remove (Nat.le_trans hread hlater) hremove).effect fun k tag r hspent _ => ?_))
  cases precondition with
  | any => cases hspent
  | tag t =>
    obtain ⟨rfl, rfl⟩ := hspent
    obtain rfl : t = old.etag := by simpa [Precondition.admits] using hadmits
    refine ⟨⟨old, hold, rfl⟩, fun e' he' => ?_⟩
    rw [Entities.find?_remove hremove, if_pos rfl] at he'
    cases he'

theorem Kept.trans {final : Nat} {entities'' : Entities} (h : Kept now entities later entities')
    (h' : Kept later entities' final entities'') : Kept now entities final entities'' :=
  ⟨Nat.le_trans h.le h'.le, fun htimely => h'.timely (h.timely htimely),
    fun key => (h.continues key).trans (h'.continues key)⟩

theorem ends_removeEach {post : Except Failure Nat → Nat → Stores → Prop}
    (h : ∀ r later s', Kept now s.entities later s'.entities → post r later s') (keys : List EntityKey) :
    Ends post now s (removeEach keys) := by
  induction keys generalizing now s post with
  | nil => exact ends_pure (h _ now s (.sleep (Nat.le_refl _)))
  | cons key rest ih =>
    rw [removeEach_cons]
    refine ends_bind (ends_changeEntities (fun later gone entities hle hdiscard => ?_) fun f later hle =>
      h _ later s (.sleep hle))
    have hentities : (s.entities.discard key).2 = entities := congrArg Prod.snd (Except.ok.inj hdiscard)
    have hkept : Kept now s.entities later entities := hentities ▸ kept_discard hle key
    refine ends_bind (ih fun r final s' hrest => ?_)
    cases r with
    | ok n => exact ends_pure (h _ final s' (hkept.trans hrest))
    | error f => exact h _ final s' (hkept.trans hrest)

theorem ends_deleteType (timeout : Nat) (type : String) : EndsWithEffect timeout (.deleteType type) now s := by
  refine ends_bind (ends_bind (ends_lock (fun guard => ?_) fun f => effect_error (Nat.le_refl _) f))
  refine ends_bind (ends_ask fun read hread => ?_)
  refine ends_bind (ends_lockAll ?_ fun f => effect_error hread f)
  refine ends_bind (ends_removeEach (fun r later s' hkept => ?_) _)
  have heffect : ∀ answer, Effect (.deleteType type) now s.entities answer later s'.entities := fun answer =>
    ((Kept.sleep hread).trans hkept).effect nofun
  cases r with
  | ok n => exact ends_pure (ends_pure (heffect _))
  | error f => exact heffect _

theorem ends_link (timeout : Nat) (a b : EntityKey) : EndsWithEffect timeout (.link a b) now s := by
  refine ends_bind (ends_bind (ends_lockAll ?_ fun f => effect_error (Nat.le_refl _) f))
  refine ends_changeEntities (fun later added entities hle hlink => ?_) fun f later hle => effect_error hle f
  have hkept : Kept now s.entities later entities :=
    ⟨hle, fun htimely => (htimely.mono hle).of_kept (Entities.find?_link hlink), fun _ =>
      .of_kept (Entities.find?_link hlink)⟩
  exact ends_pure (hkept.effect nofun)

theorem ends_unlink (timeout : Nat) (a b : EntityKey) : EndsWithEffect timeout (.unlink a b) now s := by
  refine ends_bind (ends_bind (ends_lockAll ?_ fun f => effect_error (Nat.le_refl _) f))
  refine ends_changeEntities (fun later dropped entities hle hunlink => ?_) fun f later hle => effect_error hle f
  obtain rfl : (s.entities.unlink a b).2 = entities := congrArg Prod.snd (Except.ok.inj hunlink)
  have hkept : Kept now s.entities later (s.entities.unlink a b).2 :=
    ⟨hle, fun htimely => (htimely.mono hle).of_kept (Entities.find?_unlink a b), fun _ =>
      .of_kept (Entities.find?_unlink a b)⟩
  exact ends_pure (hkept.effect nofun)

theorem ends_operation (timeout : Nat) {call : Call} (h : call.OnEntities) : EndsWithEffect timeout call now s := by
  cases call with
  | create key body => exact ends_create timeout key body
  | replace key body precondition =>
    refine ends_revise rfl fun k tag hspends => ?_
    cases precondition with
    | any => cases hspends
    | tag t => exact ⟨hspends.1.symm, by rw [hspends.2]⟩
  | merge key patch precondition =>
    refine ends_revise rfl fun k tag hspends => ?_
    cases precondition with
    | any => cases hspends
    | tag t => exact ⟨hspends.1.symm, by rw [hspends.2]⟩
  | delete key precondition => exact ends_delete timeout key precondition
  | deleteType type => exact ends_deleteType timeout type
  | link a b => exact ends_link timeout a b
  | unlink a b => exact ends_unlink timeout a b
  | createNode | putFile | moveNode | deleteNode | setProperties | list => cases h

/-- What a caller comes to by its own steps, however much time it takes. -/
theorem effect_of_reaches {timeout : Nat} (h : call.OnEntities) {s s' : Service} {gs : List Guard} {ps : List Path}
    (hreaches : Caller.Reaches (.begin (call.operation timeout), s) (⟨.done answer, gs, ps⟩, s')) :
    Effect call s.now s.stores.entities answer s'.now s'.stores.entities := by
  have hends : EndsWithEffect timeout call s.now s.stores := ends_operation timeout h
  obtain ⟨last, heffect, hlast⟩ := Caller.ends_of_reaches hreaches hends (Nat.le_refl _)
  exact heffect.sleep hlast

/-! ## Calls one after another -/

/-- A call and its answer. -/
abbrev Answered := Call × Except Failure Answer

/-- Calls on entities one after another, with their answers. Time may pass between any two steps. -/
inductive Session : Service → List Answered → Service → Prop where
  | nil (s : Service) : Session s [] s
  | cons {s s' s'' : Service} {timeout : Nat} {call : Call} {answer : Except Failure Answer} {ps : List Path}
    {calls : List Answered} (hcall : call.OnEntities)
    (hreaches : Caller.Reaches (.begin (call.operation timeout), s) (⟨.done answer, [], ps⟩, s'))
    (hrest : Session s' calls s'') : Session s ((call, answer) :: calls) s''

variable {start middle final : Service} {before calls : List Answered}

theorem Session.split (h : Session start (before ++ calls) final) :
    ∃ middle, Session start before middle ∧ Session middle calls final := by
  induction before generalizing start with
  | nil => exact ⟨start, .nil start, h⟩
  | cons c before ih =>
    cases h with
    | cons hcall hreaches hrest =>
      obtain ⟨middle, hbefore, hcalls⟩ := ih hrest
      exact ⟨middle, .cons hcall hreaches hbefore, hcalls⟩

theorem Session.timely (h : Session start calls final) (hstart : start.stores.entities.Timely start.now) :
    final.stores.entities.Timely final.now := by
  induction h with
  | nil => exact hstart
  | cons hcall hreaches _ ih => exact ih ((effect_of_reaches hcall hreaches).timely hstart)

/-- A tag that is left behind stays there, unless the entity is created again at the time of that tag. -/
theorem Session.past {key : EntityKey} {tag : ETag} (h : Session start calls final)
    (hpast : start.stores.entities.Past key tag) (htime : tag.updated ≤ start.now) :
    final.stores.entities.Past key tag ∨
      ∃ body, ((.create key body, .ok (.outcome (.created ⟨1, tag.updated⟩))) : Answered) ∈ calls := by
  induction h with
  | nil => exact .inl hpast
  | @cons s s' s'' timeout call answer ps calls hcall hreaches _ ih =>
    have heffect := effect_of_reaches hcall hreaches
    have htime' : tag.updated ≤ s'.now := Int.le_trans htime (Int.ofNat_le.mpr heffect.le)
    rcases heffect.continues key with hcontinues | ⟨body, t, rfl, rfl, hnow, hcreated⟩
    · refine (ih (hpast.mono hcontinues) htime').imp_right ?_
      rintro ⟨body, hmem⟩
      exact ⟨body, List.mem_cons_of_mem _ hmem⟩
    · by_cases ht : tag.updated = t
      · exact .inr ⟨body, ht ▸ List.mem_cons_self⟩
      · refine (ih (fun e he => .inl ?_) htime').imp_right ?_
        · have hupdated : e.updated = t := congrArg ETag.updated (hcreated e he)
          omega
        · rintro ⟨body', hmem⟩
          exact ⟨body', List.mem_cons_of_mem _ hmem⟩

/-- Calls on entities come one after another on a new service, with or without leases, while time passes. When two of
them change an entity under the precondition of one tag and both succeed, then between them the entity was created
again at the very time that the tag tells. -/
theorem created_between (lease : Option Nat) (now : Nat) (before between after : List Answered)
    (key : EntityKey) (tag : ETag) (first second : Call) (a b : Answer) (final : Service)
    (hsession : Session (.start lease now) (before ++ (first, .ok a) :: (between ++ (second, .ok b) :: after)) final)
    (hfirst : first.Spends key tag) (hsecond : second.Spends key tag) :
    ∃ body, ((.create key body, .ok (.outcome (.created ⟨1, tag.updated⟩))) : Answered) ∈ between := by
  obtain ⟨s, hbefore, hsession⟩ := hsession.split
  cases hsession with
  | @cons _ s' _ _ _ _ _ _ hcall hreaches hsession =>
    have heffect := effect_of_reaches hcall hreaches
    obtain ⟨⟨e, he, hetag⟩, hpast⟩ := heffect.spent key tag a hfirst rfl
    have htime : tag.updated ≤ s'.now := by
      have hupdated : e.updated = tag.updated := congrArg ETag.updated hetag
      have htimely := hbefore.timely Entities.timely_empty key e he
      have hle := heffect.le
      omega
    obtain ⟨s'', hbetween, hsession⟩ := hsession.split
    refine (hbetween.past hpast htime).resolve_left fun hpast => ?_
    cases hsession with
    | cons hcall hreaches _ =>
      obtain ⟨⟨e, he, hetag⟩, _⟩ := (effect_of_reaches hcall hreaches).spent key tag b hsecond rfl
      exact hpast.etag_ne he hetag

/-! ## Within one millisecond -/

theorem Session.run (timeout : Nat) (hcall : call.OnEntities)
    (hrun : Procedure.run (call.operation timeout) start = (answer, middle)) (hrest : Session middle calls final) :
    Session start ((call, answer) :: calls) final := by
  obtain ⟨ps, hreaches⟩ := Caller.reaches_run (call.operation timeout) start
  rw [hrun] at hreaches
  exact .cons hcall hreaches hrest

/-- An entity is created, deleted under its tag, created again in the same millisecond and deleted under that tag. -/
def recreation (key : EntityKey) (now : Nat) : List Answered :=
  [(.create key .empty, .ok (.outcome (.created ⟨1, now⟩))),
    (.delete key (.tag ⟨1, now⟩), .ok (.outcome (.deleted 1))),
    (.create key .empty, .ok (.outcome (.created ⟨1, now⟩))),
    (.delete key (.tag ⟨1, now⟩), .ok (.outcome (.deleted 1)))]

theorem session_recreation :
    ∃ final, Session (.start none 1000) (recreation ⟨"Sales", "s1"⟩ 1000) final :=
  ⟨_, .run 0 trivial rfl (.run 0 trivial rfl (.run 0 trivial rfl (.run 0 trivial rfl (.nil _))))⟩

theorem created_between_recreation :
    ∃ final body, Session (.start none 1000) (recreation ⟨"Sales", "s1"⟩ 1000) final ∧
      ((.create ⟨"Sales", "s1"⟩ body, .ok (.outcome (.created ⟨1, 1000⟩))) : Answered) ∈
        [((.create ⟨"Sales", "s1"⟩ .empty, .ok (.outcome (.created ⟨1, 1000⟩))) : Answered)] := by
  obtain ⟨final, hsession⟩ := session_recreation
  obtain ⟨body, hbody⟩ := created_between none 1000 [_] [_] [] ⟨"Sales", "s1"⟩ ⟨1, 1000⟩ _ _ _ _ final hsession
    ⟨rfl, rfl⟩ ⟨rfl, rfl⟩
  exact ⟨final, body, hsession, hbody⟩

/-- Versions start again with every creation, so a tag can be spent twice. -/
theorem not_spent_once :
    ¬ ∀ (lease : Option Nat) (now : Nat) (calls : List Answered) (final : Service)
      (key : EntityKey) (tag : ETag) (i j : Nat) (first second : Call) (a b : Answer),
      Session (.start lease now) calls final → calls[i]? = some (first, .ok a) → calls[j]? = some (second, .ok b) →
        first.Spends key tag → second.Spends key tag → i = j := by
  intro h
  obtain ⟨final, hsession⟩ := session_recreation
  have hij := h none 1000 _ final ⟨"Sales", "s1"⟩ ⟨1, 1000⟩ 1 3 _ _ _ _ hsession rfl rfl ⟨rfl, rfl⟩ ⟨rfl, rfl⟩
  cases hij

end Mutation

end EntityStore
