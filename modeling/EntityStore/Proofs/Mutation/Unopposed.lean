import EntityStore.Proofs.Mutation.Completion

/-!
# Operations that get their locks

What an operation comes to that is refused no lock while only its own steps change the stores. A caller that asks for
the locks of ascending paths does not stand in its own way, so it is refused none if no other holds one when it begins.
Main statement: `exists_answer_of_reaches`.
-/
namespace EntityStore

/-- An operation that succeeds with `post` of the result and the stores, as long as it gets the locks it asks for and
only its own steps change the stores; `s` are the stores that it goes on from. -/
def Procedure.Succeeds {α : Type} (post : α → Stores → Prop) (s : Stores) : Procedure (Except Failure α) → Prop
  | .done (.ok a) => post a s
  | .done (.error _) => False
  | .clock next => ∀ now, (next now).Succeeds post s
  | .lock _ _ _ next => ∀ g, (next (.ok g)).Succeeds post s
  | .ensure _ next => ∀ r, (next r).Succeeds post s
  | .access update next => ∀ now, (next now s).Succeeds post (update now s)

namespace Mutation

open Operation Procedure

variable {α β : Type} {post : α → Stores → Prop} {s : Stores}

theorem succeeds_pure {a : α} (h : post a s) : Succeeds post s (pure a : Operation α) := h

theorem succeeds_bind {x : Operation β} {f : β → Operation α}
    (h : Succeeds (fun b s => Succeeds post s (f b)) s x) : Succeeds post s (x >>= f : Operation α) := by
  change Succeeds post s (Procedure.bind x (ExceptT.bindCont f))
  change Procedure (Except Failure β) at x
  induction x generalizing s with
  | done r =>
    cases r with
    | ok b => exact h
    | error e => exact h.elim
  | clock next ih => exact fun now => ih now (h now)
  | lock path kind deadline next ih => exact fun g => ih (.ok g) (h g)
  | ensure guard next ih => exact fun r => ih r (h r)
  | access update next ih => exact fun now => ih now s (h now)

theorem succeeds_lock {post : Guard → Stores → Prop} {timeout : Nat} {path : Path} {kind : LockKind}
    (h : ∀ g, post g s) : Succeeds post s (lock timeout path kind) :=
  fun _ => h

theorem succeeds_lockEach {post : Unit → Stores → Prop} {deadline : Nat} {kind : LockKind} {paths : List Path}
    (h : post () s) : Succeeds post s (lockEach deadline kind paths) := by
  induction paths with
  | nil => exact succeeds_pure h
  | cons path rest ih => exact succeeds_bind fun _ => ih

theorem succeeds_lockAll {post : Unit → Stores → Prop} {timeout : Nat} {kind : LockKind} {paths : List Path}
    (h : post () s) : Succeeds post s (lockAll timeout paths kind) :=
  succeeds_bind fun _ => succeeds_lockEach h

theorem succeeds_ask {read : Stores → α} (h : post (read s) s) : Succeeds post s (ask read) := fun _ => h

theorem succeeds_changeEntities {step : Nat → Entities → Except StoreError (α × Entities)} (result : α × Entities)
    (hstep : ∀ now, step now s.entities = .ok result) (h : post result.1 { s with entities := result.2 }) :
    Succeeds post s (changeEntities step) := by
  intro now
  simp only [hstep, Except.map]
  exact h

end Mutation

namespace Caller

variable {α : Type} {post : α → Stores → Prop} {c c' : Caller (Except Failure α)} {start s s' : Service}
  {others : List Guard}

theorem succeeds_step (h : c.rest.Succeeds post s.stores) (hstep : Step (c, s) (c', s'))
    (hgranted : ∀ path kind s', c.asking = some path → s.tryAcquire path kind ≠ (none, s')) :
    c'.rest.Succeeds post s'.stores := by
  cases hstep with
  | granted htaken =>
    obtain ⟨locks, _, rfl⟩ := exists_of_tryAcquire htaken
    exact h _
  | refused _ hrefused => exact absurd hrefused (hgranted _ _ _ rfl)
  | clock | ensured | accessed => exact h _
  | released | waited => exact h

/-- A caller in the middle of an operation that it began when no other held a lock, while the others do nothing. -/
structure Unopposed (others : List Guard) (start : Service) (post : α → Stores → Prop)
    (c : Caller (Except Failure α)) (s : Service) : Prop where
  order : c.InOrder
  beside : Beside others start c.guards s
  free : ∀ g ∈ others, start.locks.holds start.now g = false
  succeeds : c.rest.Succeeds post s.stores

theorem Unopposed.not_refused (h : Unopposed others start post c s) {path : Path} (kind : LockKind) (s' : Service)
    (hasking : c.asking = some path) : s.tryAcquire path kind ≠ (none, s') := by
  intro hrefused
  have hown := h.order.path_ne (h.order.lt_of_asking hasking)
  obtain ⟨g, hg, _, hholds⟩ := h.beside.exists_of_refused hrefused hown
  simp [h.free g hg] at hholds

theorem Unopposed.step (h : Unopposed others start post c s) (hstep : Step (c, s) (c', s')) :
    Unopposed others start post c' s' where
  order := h.order.step hstep
  beside := h.beside.step hstep
  free := h.free
  succeeds := succeeds_step h.succeeds hstep fun _ kind s' => h.not_refused kind s'

theorem unopposed_of_reaches {x y : Caller (Except Failure α) × Service} (h : Unopposed others start post x.1 x.2)
    (hreaches : Reaches x y) : Unopposed others start post y.1 y.2 := by
  induction hreaches with
  | refl => exact h
  | tail _ hstep ih => exact ih.step hstep

/-- The answer of an operation that begins when no lock is held. -/
theorem exists_answer_of_reaches {operation : Operation α} (hconsistent : start.locks.Consistent others)
    (hfree : ∀ p, (start.locks.entry p).lock.isHeld start.locks.lease start.now = false)
    (horderly : Procedure.Orderly (fun _ _ => True) [] operation)
    (hsucceeds : Procedure.Succeeds post start.stores operation)
    (hreaches : Reaches (begin operation, start) (c, s)) {answer : Except Failure α} (hanswer : c.rest = .done answer) :
    ∃ a, answer = .ok a ∧ post a s.stores := by
  have hothers : ∀ g ∈ others, start.locks.holds start.now g = false := by
    intro g _
    rw [Bool.eq_false_iff]
    intro hholds
    obtain ⟨t, ht, _, hvalid⟩ := LockRegistry.holds_iff.mp hholds
    have hheld := Lock.isHeld_iff.mpr ⟨t, ht, hvalid⟩
    simp [hfree] at hheld
  have hbegin : Unopposed others start post (begin operation) start :=
    ⟨inOrder_begin horderly, .refl hconsistent, hothers, hsucceeds⟩
  have hend := (unopposed_of_reaches hbegin hreaches).succeeds
  rw [hanswer] at hend
  cases answer with
  | ok a => exact ⟨a, rfl, hend⟩
  | error f => exact hend.elim

end Caller

end EntityStore
