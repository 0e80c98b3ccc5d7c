import EntityStore.Mutation.Procedure
import EntityStore.Proofs.Lock.Consistent
import Mathlib.Logic.Relation

/-!
# Procedures step by step

What callers do one step at a time, with any time between: a lock is given if it is free and refused if it is not,
and the guards are given up one by one in the end. Running a procedure without other callers is one way to take
these steps. Main statement: `reaches_run`.
-/
namespace EntityStore

/-- A caller in the middle of a procedure: what is left of it, its guards, and the paths whose locks it has asked
for. -/
structure Caller (α : Type) where
  rest : Procedure α
  guards : List Guard
  requested : List Path

namespace Caller

variable {α : Type}

def begin (p : Procedure α) : Caller α := ⟨p, [], []⟩

/-- One step of a caller. While it waits for a lock that is held, it can give up at any time. -/
inductive Step : Caller α × Service → Caller α × Service → Prop where
  | clock {next gs ps s} : Step (⟨.clock next, gs, ps⟩, s) (⟨next s.now, gs, ps⟩, s)
  | granted {path kind deadline next gs ps g} {s s' : Service} (h : s.tryAcquire path kind = (some g, s')) :
    Step (⟨.lock path kind deadline next, gs, ps⟩, s) (⟨next (.ok g), gs ++ [g], ps ++ [path]⟩, s')
  | refused {path kind deadline next gs ps} {s s' : Service} (waited : Nat)
    (h : s.tryAcquire path kind = (none, s')) :
    Step (⟨.lock path kind deadline next, gs, ps⟩, s)
      (⟨next (.error (.overflow path.text waited)), gs, ps ++ [path]⟩, s')
  | ensured {g next gs ps s} :
    Step (⟨.ensure g next, gs, ps⟩, s) (⟨next (s.locks.ensure s.now g), gs, ps⟩, s)
  | accessed {update next gs ps s} :
    Step (⟨.access update next, gs, ps⟩, s)
      (⟨next s.now s.stores, gs, ps⟩, { s with stores := update s.now s.stores })
  | released {a before g after ps s} :
    Step (⟨.done a, before ++ g :: after, ps⟩, s) (⟨.done a, before ++ after, ps⟩, (s.release g).2)
  | waited {c s} (millis : Nat) : Step (c, s) (c, s.sleep millis)

def Reaches : Caller α × Service → Caller α × Service → Prop := Relation.ReflTransGen Step

theorem reaches_done (a : α) (gs : List Guard) (ps : List Path) (s : Service) :
    Reaches (⟨.done a, gs, ps⟩, s) (⟨.done a, [], ps⟩, s.releaseAll gs) := by
  induction gs generalizing s with
  | nil => exact .refl
  | cons g gs ih =>
    have hfirst : Step (⟨.done a, [] ++ g :: gs, ps⟩, s) (⟨.done a, [] ++ gs, ps⟩, (s.release g).2) := .released
    exact Relation.ReflTransGen.head hfirst (ih _)

theorem exists_of_tryAcquire {s s' : Service} {path : Path} {kind : LockKind} {answer : Option Guard}
    (h : s.tryAcquire path kind = (answer, s')) :
    ∃ locks, s.locks.tryAcquire s.now path kind = (answer, locks) ∧ s' = { s with locks } := by
  cases hresult : s.locks.tryAcquire s.now path kind with
  | mk answer' locks =>
    simp only [Service.tryAcquire, hresult] at h
    cases h
    exact ⟨locks, rfl, rfl⟩

/-- Waiting for a lock without other callers is letting time pass, and then getting an answer. -/
theorem exists_tryAcquire_of_acquire {s s' : Service} {timeout : Nat} {path : Path} {kind : LockKind}
    {result : Except LockError Guard} (h : s.acquire timeout path kind = (result, s')) :
    (∃ millis g, result = .ok g ∧ (s.sleep millis).tryAcquire path kind = (some g, s')) ∨
      ∃ millis waited, result = .error (.overflow path.text waited) ∧
        (s.sleep millis).tryAcquire path kind = (none, s') := by
  simp only [Service.acquire] at h
  have hsleep : ∀ later, s.now ≤ later → s.sleep (later - s.now) = { s with now := later } := by
    intro later hle
    rw [Service.sleep, Nat.add_sub_cancel' hle]
  rcases LockRegistry.acquire_cases s.locks s.now timeout path kind with
    ⟨later, g, locks, hle, htaken, hresult⟩ | ⟨later, locks, hle, hrefused, hresult⟩
  · rw [hresult] at h
    cases h
    exact .inl ⟨later - s.now, g, rfl, by simp only [hsleep later hle, Service.tryAcquire, htaken]⟩
  · rw [hresult] at h
    cases h
    exact .inr ⟨later - s.now, _, rfl, by simp only [hsleep later hle, Service.tryAcquire, hrefused]⟩

theorem reaches_runWith (p : Procedure α) (gs : List Guard) (ps : List Path) (s : Service) :
    ∃ ps', Reaches (⟨p, gs, ps⟩, s) (⟨.done (p.runWith gs s).1, [], ps'⟩, (p.runWith gs s).2) := by
  induction p generalizing gs ps s with
  | done a => exact ⟨ps, reaches_done a gs ps s⟩
  | clock next ih =>
    obtain ⟨ps', hrest⟩ := ih s.now gs ps s
    exact ⟨ps', .head .clock hrest⟩
  | lock path kind deadline next ih =>
    cases hacquire : s.acquire (deadline - s.now) path kind with
    | mk result s' =>
      have hwait : ∀ millis, Step (⟨.lock path kind deadline next, gs, ps⟩, s)
          (⟨.lock path kind deadline next, gs, ps⟩, s.sleep millis) := fun millis => .waited millis
      rcases exists_tryAcquire_of_acquire hacquire with ⟨millis, g, rfl, h⟩ | ⟨millis, waited, rfl, h⟩
      · obtain ⟨ps', hrest⟩ := ih (.ok g) (gs ++ [g]) (ps ++ [path]) s'
        simp only [Procedure.runWith, hacquire]
        exact ⟨ps', .head (hwait millis) (.head (.granted h) hrest)⟩
      · obtain ⟨ps', hrest⟩ := ih (.error (.overflow path.text waited)) gs (ps ++ [path]) s'
        simp only [Procedure.runWith, hacquire]
        exact ⟨ps', .head (hwait millis) (.head (.refused waited h) hrest)⟩
  | ensure g next ih =>
    obtain ⟨ps', hrest⟩ := ih (s.locks.ensure s.now g) gs ps s
    exact ⟨ps', .head .ensured hrest⟩
  | access update next ih =>
    obtain ⟨ps', hrest⟩ := ih s.now s.stores gs ps { s with stores := update s.now s.stores }
    exact ⟨ps', .head .accessed hrest⟩

/-- A run without other callers is a sequence of steps, after which the caller has no guards. -/
theorem reaches_run (p : Procedure α) (s : Service) :
    ∃ ps, Reaches (begin p, s) (⟨.done (p.run s).1, [], ps⟩, (p.run s).2) :=
  reaches_runWith p [] [] s

end Caller

end EntityStore
