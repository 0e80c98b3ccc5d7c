import EntityStore.Proofs.Mutation.Orderly
import EntityStore.Proofs.Mutation.Steps
import Mathlib.Logic.Function.Basic

/-!
# Callers that wait for each other

Any number of callers take turns on one service. Each holds only locks that it has asked for, and asks only for
locks above those, so along a chain of callers that wait for each other the paths ascend. Main statement:
`waits_acyclic`.
-/
namespace EntityStore

namespace Caller

open Procedure

variable {α : Type} {c c' : Caller (Except Failure α)} {s s' : Service}

/-- The path whose lock a caller is asking for. -/
def asking {α : Type} (c : Caller α) : Option Path :=
  match c.rest with
  | .lock path _ _ _ => some path
  | _ => none

/-- A step of an orderly operation leaves an orderly one, unless a lock is refused, which ends it. -/
theorem orderly_step {post : α → List Path → Prop} (h : c.rest.Orderly post c.requested)
    (hstep : Step (c, s) (c', s')) :
    c'.rest.Orderly post c'.requested ∨
      ∃ path kind waited, s.tryAcquire path kind = (none, s') ∧ (∀ p ∈ c.requested, compare p path = .lt) ∧
        c' = ⟨.done (.error (.lock (.overflow path.text waited))), c.guards, c.requested ++ [path]⟩ := by
  cases hstep with
  | clock => exact .inl (h _)
  | granted _ => exact .inl (h.2.1 _)
  | refused waited hrefused =>
    refine .inr ⟨_, _, waited, hrefused, h.1, ?_⟩
    rw [h.2.2]
  | @ensured g _ _ _ _ =>
    refine .inl ?_
    cases hensure : s.locks.ensure s.now g with
    | ok => exact h.1
    | error e =>
      unfold LockRegistry.ensure at hensure
      split at hensure
      · cases hensure
      · cases hensure
        exact h.2 _
  | accessed => exact .inl (h _ _)
  | released => exact .inl h
  | waited => exact .inl h

/-- A caller that has asked for ascending paths, goes on to do so or has ended, and has guards only on them. -/
structure InOrder (c : Caller (Except Failure α)) : Prop where
  ascending : c.requested.Pairwise fun p q => compare p q = .lt
  rest : (∃ r, c.rest = .done r) ∨ c.rest.Orderly (fun _ _ => True) c.requested
  guards : ∀ g ∈ c.guards, g.path ∈ c.requested

theorem inOrder_begin {x : Procedure (Except Failure α)} (h : x.Orderly (fun _ _ => True) []) : (begin x).InOrder where
  ascending := .nil
  rest := .inr h
  guards := nofun

theorem InOrder.lt_of_asking (h : c.InOrder) {path : Path} (hasking : c.asking = some path) :
    ∀ p ∈ c.requested, compare p path = .lt := by
  obtain ⟨rest, gs, ps⟩ := c
  cases rest with
  | lock p kind deadline next =>
    cases hasking
    rcases h.rest with ⟨r, hdone⟩ | horderly
    · cases hdone
    · exact horderly.1
  | done | clock | ensure | access => cases hasking

/-- A caller has no guard on a path above all that it has asked for. -/
theorem InOrder.path_ne (h : c.InOrder) {path : Path} (hnew : ∀ p ∈ c.requested, compare p path = .lt) :
    ∀ g ∈ c.guards, g.path ≠ path := by
  intro g hg heq
  have hlt := hnew g.path (h.guards g hg)
  simp [heq, Std.ReflCmp.compare_self] at hlt

/-- What a caller asks for comes after all that it has asked for. -/
theorem InOrder.ascending_append (h : c.InOrder) {path : Path} (hasking : c.asking = some path) :
    (c.requested ++ [path]).Pairwise fun p q => compare p q = .lt := by
  refine List.pairwise_append.mpr ⟨h.ascending, List.pairwise_singleton _ _, fun p hp q hq => ?_⟩
  obtain rfl := List.mem_singleton.mp hq
  exact h.lt_of_asking hasking p hp

theorem path_of_tryAcquire {path : Path} {kind : LockKind} {g : Guard}
    (h : s.tryAcquire path kind = (some g, s')) : g.path = path := by
  obtain ⟨locks, htaken, _⟩ := exists_of_tryAcquire h
  obtain ⟨_, rfl, _⟩ := LockRegistry.of_tryAcquire htaken
  rfl

theorem InOrder.step (h : c.InOrder) (hstep : Step (c, s) (c', s')) : c'.InOrder := by
  have hrest : (∃ r, c'.rest = .done r) ∨ c'.rest.Orderly (fun _ _ => True) c'.requested := by
    rcases h.rest with ⟨r, hdone⟩ | horderly
    · cases hstep <;> first | exact .inl ⟨_, rfl⟩ | exact .inl ⟨r, hdone⟩ | cases hdone
    · rcases orderly_step horderly hstep with horderly | ⟨path, kind, waited, _, _, rfl⟩
      · exact .inr horderly
      · exact .inl ⟨_, rfl⟩
  have hguards : ∀ g ∈ c'.guards, g.path ∈ c'.requested := by
    have hold := h.guards
    cases hstep with
    | granted hgranted =>
      intro g hg
      rcases List.mem_append.mp hg with hg | hg
      · exact List.mem_append_left _ (hold g hg)
      · obtain rfl := List.mem_singleton.mp hg
        rw [path_of_tryAcquire hgranted]
        exact List.mem_append_right _ (List.mem_singleton_self _)
    | refused => exact fun g hg => List.mem_append_left _ (hold g hg)
    | released =>
      intro g hg
      exact hold g (List.mem_append.mpr ((List.mem_append.mp hg).imp_right (List.mem_cons_of_mem _)))
    | clock | ensured | accessed | waited => exact hold
  refine ⟨?_, hrest, hguards⟩
  cases hstep with
  | granted | refused => exact h.ascending_append rfl
  | clock | ensured | accessed | released | waited => exact h.ascending

end Caller

/-! ## Several callers -/

/-- Callers on one service. -/
abbrev Callers (ι α : Type) := (ι → Caller α) × Service

namespace Callers

variable {ι : Type} [DecidableEq ι] {α : Type}

/-- One of the callers takes a step. -/
def Step (x y : Callers ι α) : Prop :=
  ∃ i c, Caller.Step (x.1 i, x.2) (c, y.2) ∧ y.1 = Function.update x.1 i c

theorem step_update {callers : ι → Caller α} {s s' : Service} (i : ι) {c : Caller α}
    (h : Caller.Step (callers i, s) (c, s')) : Step (callers, s) (Function.update callers i c, s') :=
  ⟨i, c, h, rfl⟩

def Reaches : Callers ι α → Callers ι α → Prop := Relation.ReflTransGen Step

/-- A caller asks for the lock of a path on which another has a guard. -/
def Waits (callers : ι → Caller α) (i j : ι) : Prop :=
  ∃ p, (callers i).asking = some p ∧ ∃ g ∈ (callers j).guards, g.path = p

theorem inOrder_of_reaches {x y : Callers ι (Except Failure α)} (h : ∀ i, (x.1 i).InOrder) (hreaches : Reaches x y) :
    ∀ i, (y.1 i).InOrder := by
  induction hreaches with
  | refl => exact h
  | tail _ hstep ih =>
    obtain ⟨i, c, hstep, heq⟩ := hstep
    intro j
    rw [heq]
    by_cases hj : j = i
    · subst hj
      rw [Function.update_self]
      exact (ih j).step hstep
    · rw [Function.update_of_ne hj]
      exact ih j

omit [DecidableEq ι] in
/-- Along a chain of callers, the last has a guard that is not below what the first is asking for. -/
theorem exists_of_waits {callers : ι → Caller (Except Failure α)} (h : ∀ i, (callers i).InOrder) {i j : ι}
    (hwaits : Relation.TransGen (Waits callers) i j) :
    ∃ p, (callers i).asking = some p ∧ ∃ g ∈ (callers j).guards, (compare p g.path).isLE = true := by
  induction hwaits with
  | single hfirst =>
    obtain ⟨p, hasking, g, hg, rfl⟩ := hfirst
    exact ⟨g.path, hasking, g, hg, Ordering.isLE_of_eq_eq Std.ReflCmp.compare_self⟩
  | tail _ hnext ih =>
    obtain ⟨p, hasking, g, hg, hle⟩ := ih
    obtain ⟨q, hasking', g', hg', rfl⟩ := hnext
    have hlt := (h _).lt_of_asking hasking' g.path ((h _).guards g hg)
    exact ⟨p, hasking, g', hg', Std.TransCmp.isLE_trans hle (Ordering.isLE_of_eq_lt hlt)⟩

/-- However callers take turns, with or without leases and whatever the stores hold, each asks for the locks of
ascending paths, and no callers wait for each other in a circle. -/
theorem waits_acyclic (timeout : ι → Nat) (calls : ι → Mutation.Call) (s : Service)
    (callers : ι → Caller (Except Failure Mutation.Answer)) (s' : Service)
    (hreaches : Reaches (fun i => .begin ((calls i).operation (timeout i)), s) (callers, s')) :
    (∀ i, ((callers i).requested ++ (callers i).asking.toList).Pairwise fun p q => compare p q = .lt) ∧
      ∀ i, ¬ Relation.TransGen (Waits callers) i i := by
  have hbegin : ∀ i, (Caller.begin ((calls i).operation (timeout i))).InOrder := fun i =>
    Caller.inOrder_begin (Mutation.orderly_operation (timeout i) (calls i))
  have h : ∀ i, (callers i).InOrder := inOrder_of_reaches hbegin hreaches
  refine ⟨fun i => ?_, fun i hcycle => ?_⟩
  · cases hasking : (callers i).asking with
    | none => simpa using (h i).ascending
    | some path => exact (h i).ascending_append hasking
  · obtain ⟨p, hasking, g, hg, hle⟩ := exists_of_waits h hcycle
    have hlt := (h i).lt_of_asking hasking g.path ((h i).guards g hg)
    rw [Std.OrientedCmp.gt_of_lt hlt] at hle
    cases hle

/-- Two callers delete the same node: one has its lock, and the other waits for that. -/
theorem waits_acyclic_two_deletions :
    ∃ (callers : Bool → Caller (Except Failure Mutation.Answer)) (s' : Service),
      Reaches (fun _ => .begin ((Mutation.Call.deleteNode (.root "a") true none).operation 5), .start none 0)
        (callers, s') ∧
      Waits callers false true ∧ ∀ i, ¬ Relation.TransGen (Waits callers) i i := by
  let begun : Bool → Caller (Except Failure Mutation.Answer) := fun _ =>
    .begin ((Mutation.Call.deleteNode (.root "a") true none).operation 5)
  have hbegun : Reaches (begun, .start none 0) (begun, .start none 0) := .refl
  have hreaches := ((hbegun.tail (step_update true .clock)).tail (step_update true (.granted rfl))).tail
    (step_update false .clock)
  exact ⟨_, _, hreaches, ⟨.root "a", rfl, _, List.mem_singleton_self _, rfl⟩,
    (waits_acyclic (fun _ => 5) (fun _ => .deleteNode (.root "a") true none) _ _ _ hreaches).2⟩

end Callers

end EntityStore
