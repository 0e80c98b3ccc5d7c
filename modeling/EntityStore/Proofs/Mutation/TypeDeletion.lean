import EntityStore.Proofs.Entities.Removal
import EntityStore.Proofs.Mutation.Unopposed

/-!
# Deleting the entities of a type

The deletion of a type asks for the keys of its entities under the lock of the type and removes these one by one. If no
lock is held it succeeds, whatever else the store holds and however its members are linked. Main statement:
`deleteType_of_reaches`.
-/
namespace EntityStore

namespace Mutation

open Procedure

theorem succeeds_removeEach {post : Nat → Stores → Prop} {s : Stores} {keys : List EntityKey}
    (h : post (s.entities.discardAll keys).1 { s with entities := (s.entities.discardAll keys).2 }) :
    Succeeds post s (removeEach keys) := by
  induction keys generalizing s post with
  | nil => exact succeeds_pure h
  | cons key rest ih =>
    rw [removeEach_cons]
    apply succeeds_bind
    apply succeeds_changeEntities (s.entities.discard key) fun _ => rfl
    exact succeeds_bind (ih (succeeds_pure h))

/-- The deletion counts what it removes. -/
theorem succeeds_deleteType {s : Stores} (h : s.entities.WellFormed) (timeout : Nat) (type : String) :
    Succeeds (fun outcome s' => outcome = .deleted (s.entities.keysOf type).length ∧
      s.entities.WithoutType type s'.entities ∧ s'.resources = s.resources) s (deleteType timeout type) := by
  obtain ⟨hcount, hwithout⟩ := h.discardAll_keysOf type
  apply succeeds_bind
  apply succeeds_lock
  intro guard
  apply succeeds_bind
  apply succeeds_ask
  apply succeeds_bind
  apply succeeds_lockAll
  apply succeeds_bind
  apply succeeds_removeEach
  exact succeeds_pure ⟨by rw [hcount], hwithout, rfl⟩

end Mutation

namespace Caller

/-- Whatever has been stored and locked before, if no lock is held any more the deletion of a type comes to an answer.
The answer is the number of its entities; they are gone, and the others are as before but for their links with them. -/
theorem deleteType_of_reaches (operations : List (Int × Entities.Operation)) (resources : Resources)
    (lease : Option Nat) (now : Nat) (events : List (Nat × LockEvent)) (timeout : Nat) (type : String) :
    let s := Entities.empty.after operations
    let h := (Tenancy.start lease now).run events
    let start : Service := ⟨⟨s, resources⟩, h.locks, h.now⟩
    let deletion := Mutation.deleteType timeout type
    (∀ p, (h.locks.entry p).lock.isHeld h.locks.lease h.now = false) →
    ((s.keysOf type).Nodup ∧ ∀ k, k ∈ s.keysOf type ↔ k.type = type ∧ ∃ e, s.find? k = some e) ∧
    (∃ requested, Reaches (begin deletion, start)
      (⟨.done (Procedure.run deletion start).1, [], requested⟩, (Procedure.run deletion start).2)) ∧
    ∀ c s', Reaches (begin deletion, start) (c, s') → ∀ answer, c.rest = .done answer →
      answer = .ok (.deleted (s.keysOf type).length) ∧ s.WithoutType type s'.stores.entities ∧
        s'.stores.resources = resources := by
  intro s h start deletion hfree
  have hwellFormed : s.WellFormed := Entities.wellFormed_empty.after operations
  have hconsistent : start.locks.Consistent h.held := ((Tenancy.valid_start lease now).run events).consistent
  refine ⟨⟨s.nodup_keysOf type, fun k => ?_⟩, reaches_run _ _, ?_⟩
  · rw [Entities.mem_keysOf_iff, Option.isSome_iff_exists]
  · intro c s' hreaches answer hanswer
    have horderly := Mutation.orderly_deleteType (fun _ _ => trivial) timeout type
    obtain ⟨outcome, rfl, rfl, hleft⟩ := exists_answer_of_reaches hconsistent hfree horderly
      (Mutation.succeeds_deleteType hwellFormed timeout type) hreaches hanswer
    exact ⟨rfl, hleft⟩

/-- Two sales are linked with each other and one of them with a product: the deletion of the sales leaves the product
without links. -/
theorem deleteType_of_reaches_linked :
    let a : EntityKey := ⟨"Sales", "a"⟩
    let b : EntityKey := ⟨"Sales", "b"⟩
    let product : EntityKey := ⟨"Product", "p"⟩
    let operations : List (Int × Entities.Operation) := [(1, .write a .empty none), (2, .write b .empty none),
      (3, .write product .empty none), (4, .link a b), (5, .link a product)]
    let events : List (Nat × LockEvent) := [(6, .acquire 5 a.path .content), (1, .release 0)]
    let s := Entities.empty.after operations
    let h := (Tenancy.start none 0).run events
    s.linked a b = true ∧ s.linked product a = true ∧
      ∃ c s', Reaches (begin (Mutation.deleteType 5 "Sales"), ⟨⟨s, .empty⟩, h.locks, h.now⟩) (c, s') ∧
        c.rest = .done (.ok (.deleted 2)) ∧ c.guards = [] ∧ s'.stores.entities.find? a = none ∧
        ∃ e, s'.stores.entities.find? product = some e ∧ e.version = 1 ∧ e.links.contains a = false := by
  intro a b product operations events s h
  have hlocks : h.locks = .empty none := by decide
  have hfree : ∀ p, (h.locks.entry p).lock.isHeld h.locks.lease h.now = false := by
    intro p
    rw [hlocks]
    rfl
  obtain ⟨-, ⟨requested, hreaches⟩, hall⟩ := deleteType_of_reaches operations .empty none 0 events 5 "Sales" hfree
  obtain ⟨hanswer, hleft, -⟩ := hall _ _ hreaches _ rfl
  have hcount : (s.keysOf "Sales").length = 2 := by decide
  have hversion : (s.find? product).map Entity.version = some 1 := by decide
  obtain ⟨e, he, hone⟩ := Option.map_eq_some_iff.mp hversion
  obtain ⟨links, hkept, hlinks⟩ := hleft.kept product e (by decide) he
  have hunlinked : links.contains a = false := by
    rw [hlinks, Bool.and_eq_false_iff]
    exact .inr rfl
  refine ⟨by decide, by decide, _, _, hreaches, ?_, rfl, hleft.gone a rfl, _, hkept, hone, hunlinked⟩
  change Procedure.done _ = _
  rw [hanswer, hcount]

end Caller

end EntityStore
