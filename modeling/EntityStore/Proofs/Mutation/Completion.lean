import EntityStore.Proofs.Lock.Tenancy
import EntityStore.Proofs.Mutation.Atomic
import EntityStore.Proofs.Mutation.Waiting

/-!
# Operations from beginning to end

One caller takes all the steps of an operation, with any time between, while the others keep the guards they have.
In the end the locks are as if the operation had not been, and so are the stores if it failed. Main statement:
`completed_of_reaches`.
-/
namespace EntityStore

namespace Caller

variable {α : Type} {c c' : Caller (Except Failure α)} {start s s' : Service} {others mine : List Guard} {g : Guard}

/-! ## Locks -/

/-- The locks with the guards of one caller, which has left alone what the others had at the start. -/
structure Beside (others : List Guard) (start : Service) (mine : List Guard) (s : Service) : Prop where
  consistent : s.locks.Consistent (mine ++ others)
  time : start.now ≤ s.now
  tenures : ∀ g ∈ others, ∀ later, s.now ≤ later → s.locks.holds later g = start.locks.holds later g
  holders : ∀ p t, (s.locks.entry p).lock.holder = some t →
    (∃ g ∈ mine, g.path = p ∧ g.token = t.token) ∨ (start.locks.entry p).lock.holder = some t

namespace Beside

theorem refl (h : start.locks.Consistent others) : Beside others start [] start :=
  ⟨h, Nat.le_refl _, fun _ _ _ _ => rfl, fun _ _ ht => .inr ht⟩

theorem sleep (h : Beside others start mine s) (millis : Nat) : Beside others start mine (s.sleep millis) where
  consistent := h.consistent
  time := Nat.le_trans h.time (Nat.le_add_right _ _)
  tenures := fun g hg later hle => h.tenures g hg later (Nat.le_trans (Nat.le_add_right _ _) hle)
  holders := h.holders

theorem take (h : Beside others start mine s) {path : Path} {kind : LockKind} {locks : LockRegistry}
    (htaken : s.locks.tryAcquire s.now path kind = (some g, locks)) :
    Beside others start (mine ++ [g]) { s with locks } where
  consistent := by
    refine (h.consistent.tryAcquire htaken).perm ?_
    rw [List.append_assoc]
    exact List.perm_middle.symm
  time := h.time
  tenures := fun g' hg' later hle =>
    (h.consistent.holds_tryAcquire htaken (List.mem_append_right _ hg') hle).trans (h.tenures g' hg' later hle)
  holders := by
    intro p t ht
    rcases LockRegistry.holder_of_tryAcquire htaken ht with hown | ht
    · exact .inl ⟨g, List.mem_append_right _ (List.mem_singleton_self _), hown⟩
    · exact (h.holders p t ht).imp_left fun ⟨g', hg', hown⟩ => ⟨g', List.mem_append_left _ hg', hown⟩

theorem release {before after : List Guard} (h : Beside others start (before ++ g :: after) s) :
    Beside others start (before ++ after) (s.release g).2 := by
  have hconsistent : s.locks.Consistent (g :: (before ++ after ++ others)) := by
    refine h.consistent.perm ?_
    rw [List.append_assoc, List.append_assoc]
    exact List.perm_middle
  refine ⟨hconsistent.release s.now, h.time, fun g' hg' later hle => ?_, fun p t ht => ?_⟩
  · exact (hconsistent.holds_release (List.mem_append_right _ hg') s.now later).trans (h.tenures g' hg' later hle)
  · obtain ⟨ht, hother⟩ := hconsistent.holder_of_release ht
    refine (h.holders p t ht).imp_left fun ⟨g', hg', hown⟩ => ⟨g', ?_, hown⟩
    rcases List.mem_append.mp hg' with hg' | hg'
    · exact List.mem_append_left _ hg'
    · rcases List.mem_cons.mp hg' with rfl | hg'
      · exact absurd hown hother
      · exact List.mem_append_right _ hg'

theorem step (h : Beside others start c.guards s) (hstep : Step (c, s) (c', s')) :
    Beside others start c'.guards s' := by
  cases hstep with
  | granted hgranted =>
    obtain ⟨locks, htaken, rfl⟩ := exists_of_tryAcquire hgranted
    exact h.take htaken
  | refused waited hrefused =>
    obtain ⟨locks, hlocks, rfl⟩ := exists_of_tryAcquire hrefused
    obtain ⟨_, rfl⟩ := h.consistent.of_refused hlocks
    exact h
  | released => exact h.release
  | waited millis => exact h.sleep millis
  | clock | ensured => exact h
  | accessed => exact ⟨h.consistent, h.time, h.tenures, h.holders⟩

/-- A lock that is refused, and that the caller has not taken itself, was held by another all the time. -/
theorem exists_of_refused (h : Beside others start mine s) {path : Path} {kind : LockKind}
    (hrefused : s.tryAcquire path kind = (none, s')) (hnew : ∀ g ∈ mine, g.path ≠ path) :
    ∃ g ∈ others, g.path = path ∧ start.locks.holds start.now g = true := by
  obtain ⟨locks, hlocks, _⟩ := exists_of_tryAcquire hrefused
  obtain ⟨t, ht, hvalid⟩ := Lock.isHeld_iff.mp (h.consistent.of_refused hlocks).1
  obtain ⟨g, hg, rfl, htoken⟩ := mem_tokensOn_iff.mp ((h.consistent.fits path).holder t ht).2
  rcases List.mem_append.mp hg with hg | hg
  · exact absurd rfl (hnew g hg)
  · have hholds : s.locks.holds s.now g = true := LockRegistry.holds_iff.mpr ⟨t, ht, htoken.symm, hvalid⟩
    rw [h.tenures g hg s.now (Nat.le_refl _)] at hholds
    exact ⟨g, hg, rfl, LockRegistry.holds_mono h.time hholds⟩

end Beside

/-! ## The caller -/

theorem atomic_step {origin : Stores} {post : α → Stores → Prop} (h : c.rest.Atomic origin post s.stores)
    (hstep : Step (c, s) (c', s')) : c'.rest.Atomic origin post s'.stores := by
  cases hstep with
  | granted hgranted =>
    obtain ⟨locks, _, rfl⟩ := exists_of_tryAcquire hgranted
    exact h _
  | refused _ hrefused =>
    obtain ⟨locks, _, rfl⟩ := exists_of_tryAcquire hrefused
    exact h _
  | clock | ensured | accessed => exact h _
  | released | waited => exact h

/-- A refusal that an operation ends with is due to a guard that another had at the start. -/
def Excused (others : List Guard) (start : Service) (requested : List Path) (answer : Except Failure α) : Prop :=
  ∀ key waited, answer = .error (.lock (.overflow key waited)) →
    ∃ g ∈ others, g.path ∈ requested ∧ key = g.path.text ∧ start.locks.holds start.now g = true

theorem excused_of_orderly {post : α → List Path → Prop} {asked requested : List Path} {answer : Except Failure α}
    (h : (Procedure.done answer).Orderly post asked) : Excused others start requested answer := by
  rintro key waited rfl
  exact absurd rfl (h key waited)

/-- A caller in the middle of an operation that it began at the start, while the others only keep their guards. -/
structure Alone (others : List Guard) (start : Service) (c : Caller (Except Failure α)) (s : Service) : Prop where
  order : c.InOrder
  atomic : c.rest.Atomic start.stores (fun _ _ => True) s.stores
  beside : Beside others start c.guards s
  excused : ∀ answer, c.rest = .done answer → Excused others start c.requested answer

theorem Alone.step (h : Alone others start c s) (hstep : Step (c, s) (c', s')) : Alone others start c' s' := by
  refine ⟨h.order.step hstep, atomic_step h.atomic hstep, h.beside.step hstep, ?_⟩
  intro answer hanswer
  rcases h.order.rest with ⟨r, hdone⟩ | horderly
  · -- it had ended before, so it only gives up a guard or waits
    have hsame : c'.rest = c.rest ∧ c'.requested = c.requested := by
      cases hstep <;> first | exact ⟨rfl, rfl⟩ | cases hdone
    rw [hsame.2]
    exact h.excused answer (hsame.1 ▸ hanswer)
  · rcases orderly_step horderly hstep with horderly' | ⟨path, kind, waited, hrefused, hnew, rfl⟩
    · rw [hanswer] at horderly'
      exact excused_of_orderly horderly'
    · cases hanswer
      intro key waited' heq
      cases heq
      obtain ⟨g, hg, rfl, hholds⟩ := h.beside.exists_of_refused hrefused (h.order.path_ne hnew)
      exact ⟨g, hg, List.mem_append_right _ (List.mem_singleton_self _), rfl, hholds⟩

theorem alone_of_reaches {x y : Caller (Except Failure α) × Service} (h : Alone others start x.1 x.2)
    (hreaches : Reaches x y) : Alone others start y.1 y.2 := by
  induction hreaches with
  | refl => exact h
  | tail _ hstep ih => exact ih.step hstep

theorem alone_begin (h : start.locks.Consistent others) (timeout : Nat) (call : Mutation.Call) :
    Alone others start (begin (call.operation timeout)) start where
  order := inOrder_begin (Mutation.orderly_operation timeout call)
  atomic := Mutation.atomic_operation timeout call start.stores
  beside := .refl h
  excused := by
    intro answer hanswer
    have horderly := Mutation.orderly_operation timeout call
    rw [show call.operation timeout = .done answer from hanswer] at horderly
    exact excused_of_orderly horderly

/-! ## The end -/

/-- What an operation leaves when it has its answer and the guards are given up: after a failure the same stores, no
lock of its own, a lock for the same paths, and a refusal only for a lock that another had. -/
structure Completed (others : List Guard) (start : Service) (requested : List Path) (answer : Except Failure α)
    (s : Service) : Prop where
  unchanged : ∀ f, answer = .error f → s.stores = start.stores
  released : ∀ p t, (s.locks.entry p).lock.holder = some t → (start.locks.entry p).lock.holder = some t
  tracked : ∀ p, s.locks.entries.contains p = start.locks.entries.contains p
  excused : Excused others start requested answer

theorem Alone.completed (h : Alone others start c s) (hstart : start.locks.Consistent others)
    {answer : Except Failure α} (hanswer : c.rest = .done answer) (hguards : c.guards = []) :
    Completed others start c.requested answer s := by
  have hbeside := h.beside
  rw [hguards] at hbeside
  refine ⟨fun f hfailed => ?_, fun p t ht => ?_, fun p => ?_, h.excused answer hanswer⟩
  · have hatomic := h.atomic
    rw [hanswer, hfailed] at hatomic
    exact hatomic
  · exact (hbeside.holders p t ht).resolve_left nofun
  · rw [Bool.eq_iff_iff, hbeside.consistent.tracked, hstart.tracked]
    rfl

/-- Whatever others have locked before, an operation comes to an answer; until then it ends no tenure of theirs, and
then it is completed. -/
theorem completed_of_reaches (lease : Option Nat) (now : Nat) (events : List (Nat × LockEvent)) (stores : Stores)
    (timeout : Nat) (call : Mutation.Call) :
    let h := (Tenancy.start lease now).run events
    let start : Service := ⟨stores, h.locks, h.now⟩
    (∃ requested, Reaches (begin (call.operation timeout), start)
      (⟨.done (Procedure.run (call.operation timeout) start).1, [], requested⟩,
        (Procedure.run (call.operation timeout) start).2)) ∧
    ∀ c s, Reaches (begin (call.operation timeout), start) (c, s) →
      (∀ g ∈ h.held, s.locks.holds s.now g = start.locks.holds s.now g) ∧
      ∀ answer, c.rest = .done answer → c.guards = [] → Completed h.held start c.requested answer s := by
  intro h start
  have hstart : start.locks.Consistent h.held := ((Tenancy.valid_start lease now).run events).consistent
  refine ⟨reaches_run _ _, fun c s hreaches => ?_⟩
  have halone : Alone h.held start c s := alone_of_reaches (alone_begin hstart timeout call) hreaches
  exact ⟨fun g hg => halone.beside.tenures g hg s.now (Nat.le_refl _), fun answer => halone.completed hstart⟩

end Caller

end EntityStore
