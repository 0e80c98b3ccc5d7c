import EntityStore.Proofs.Mutation.Edits
import EntityStore.Proofs.Mutation.Waiting
import Mathlib.Data.List.Induction

/-!
# Changes of one entity by several callers

Any number of callers change one entity, with their steps in any order, under locks without a lease. Each call that
gets the lock then answers as if the calls had been made one after another in the order in which they got it, and so
do the stores. Main statement: `serializable`.
-/
namespace EntityStore

namespace Callers

variable {ι α : Type}

/-- Calls made one after another, each at a time of its own: their answers, and the service in the end. -/
def inTurn (procedures : ι → Procedure α) (s : Service) (order : List (ι × Nat)) : List (ι × α) × Service :=
  order.foldl (fun (answers, s) (i, now) =>
    let (answer, s) := (procedures i).run { s with now }
    (answers ++ [(i, answer)], s)) ([], s)

theorem inTurn_concat (procedures : ι → Procedure α) (s : Service) (order : List (ι × Nat)) (i : ι) (now : Nat) :
    inTurn procedures s (order ++ [(i, now)]) =
      ((inTurn procedures s order).1 ++ [(i, ((procedures i).run { (inTurn procedures s order).2 with now }).1)],
        ((procedures i).run { (inTurn procedures s order).2 with now }).2) := by
  rw [inTurn, List.foldl_append]
  rfl

variable [DecidableEq ι]

/-- A run of callers, and the order in which they got locks. Each is listed with the time of its last access, or with
that of its lock if it has made none. The clock may be set to any time. -/
inductive Run (x : Callers ι α) : List (ι × Nat) → Callers ι α → Prop where
  | start : Run x [] x
  | clock {order callers s} (now : Nat) (h : Run x order (callers, s)) : Run x order (callers, { s with now })
  | granted {order callers s i path kind deadline next gs ps g s'} (h : Run x order (callers, s))
    (hi : callers i = ⟨.lock path kind deadline next, gs, ps⟩) (htaken : s.tryAcquire path kind = (some g, s')) :
    Run x (order ++ [(i, s.now)]) (Function.update callers i ⟨next (.ok g), gs ++ [g], ps ++ [path]⟩, s')
  | accessed {order callers s i update next gs ps} (h : Run x order (callers, s))
    (hi : callers i = ⟨.access update next, gs, ps⟩) :
    Run x (order.map fun e => if e.1 = i then (i, s.now) else e)
      (Function.update callers i ⟨next s.now s.stores, gs, ps⟩, { s with stores := update s.now s.stores })
  | other {order callers s i before after s'} (h : Run x order (callers, s)) (hi : callers i = before)
    (hstep : Caller.Step (before, s) (after, s')) (haccess : ∀ update next, before.rest ≠ .access update next)
    (hguards : after.guards.length ≤ before.guards.length) : Run x order (Function.update callers i after, s')

/-- A run goes on with every step of a caller. -/
theorem Run.step {x : Callers ι α} {order : List (ι × Nat)} {callers : ι → Caller α} {s s' : Service} {i : ι}
    {c : Caller α} (h : Run x order (callers, s)) (hstep : Caller.Step (callers i, s) (c, s')) :
    ∃ order, Run x order (Function.update callers i c, s') := by
  generalize hi : callers i = before at hstep
  cases hstep with
  | granted htaken => exact ⟨_, h.granted hi htaken⟩
  | accessed => exact ⟨_, h.accessed hi⟩
  | waited millis =>
    subst hi
    rw [Function.update_eq_self]
    exact ⟨_, h.clock (s.now + millis)⟩
  | clock => exact ⟨_, h.other hi .clock nofun (Nat.le_refl _)⟩
  | refused waited hrefused => exact ⟨_, h.other hi (.refused waited hrefused) nofun (Nat.le_refl _)⟩
  | ensured => exact ⟨_, h.other hi .ensured nofun (Nat.le_refl _)⟩
  | released => exact ⟨_, h.other hi .released nofun (by simp)⟩

theorem Run.reaches {x : Callers ι α} {order : List (ι × Nat)} {callers : ι → Caller α} {s s' : Service} {i : ι}
    {c : Caller α} (h : Run x order (callers, s)) (hreaches : Caller.Reaches (callers i, s) (c, s')) :
    ∃ order, Run x order (Function.update callers i c, s') := by
  generalize hy : (c, s') = y at hreaches
  induction hreaches generalizing c s' with
  | refl =>
    cases hy
    rw [Function.update_eq_self]
    exact ⟨order, h⟩
  | @tail mid _ _ hstep ih =>
    subst hy
    obtain ⟨order', h'⟩ := ih rfl
    have hstep' : Caller.Step (Function.update callers i mid.1 i, mid.2) (c, s') := by rwa [Function.update_self]
    obtain ⟨order'', h''⟩ := h'.step hstep'
    rw [Function.update_idem] at h''
    exact ⟨order'', h''⟩

end Callers

open Callers

variable {ι : Type} {key : EntityKey} {timeout : ι → Nat} {edits : ι → Edit} {start : Service}

namespace Edit

/-- The calls that were made after each other: their answers, and the service in the end. -/
abbrev inTurn (key : EntityKey) (timeout : ι → Nat) (edits : ι → Edit) (start : Service) (order : List (ι × Nat)) :
    List (ι × Except Failure Outcome) × Service :=
  Callers.inTurn (fun i => (edits i).operation (timeout i) key) start order

/-- Calls made after each other leave no trace in the locks. -/
theorem locks_inTurn (hlease : start.locks.lease = none) (hfree : start.locks.entries.contains key.path = false)
    (order : List (ι × Nat)) : (inTurn key timeout edits start order).2.locks = start.locks := by
  induction order using List.reverseRecOn with
  | nil => rfl
  | append_singleton order e ih =>
    have hrun := ((edits e.1).takesLock_operation (timeout e.1) key).run
      (s := { (inTurn key timeout edits start order).2 with now := e.2 }) (ih ▸ hlease) (ih ▸ hfree)
    rw [inTurn, inTurn_concat, hrun]
    exact ih

/-- After calls made after each other, the next comes to what its change does in a single moment. -/
theorem of_result (hlease : start.locks.lease = none) (hfree : start.locks.entries.contains key.path = false)
    {finished : List (ι × Nat)} {i : ι} {last : Nat} {answer : Except Failure Outcome} {stores : Stores}
    (h : (edits i).result key last (inTurn key timeout edits start finished).2.stores = (answer, stores)) :
    (i, answer) ∈ (inTurn key timeout edits start (finished ++ [(i, last)])).1 ∧
      (inTurn key timeout edits start (finished ++ [(i, last)])).2.stores = stores := by
  have hlocks : (inTurn key timeout edits start finished).2.locks = start.locks := locks_inTurn hlease hfree finished
  have hrun := ((edits i).takesLock_operation (timeout i) key).run
    (s := { (inTurn key timeout edits start finished).2 with now := last }) (hlocks ▸ hlease) (hlocks ▸ hfree)
  rw [h] at hrun
  rw [inTurn, inTurn_concat, hrun]
  exact ⟨List.mem_append_right _ (List.mem_singleton_self _), rfl⟩

/-- A caller without the lock: it has not begun, asks for the lock, was refused it or has answered. -/
inductive Idle (key : EntityKey) (timeout : ι → Nat) (edits : ι → Edit) (start : Service) (order : List (ι × Nat))
    (i : ι) : Caller (Except Failure Outcome) → Prop where
  | fresh (ps : List Path) (hnew : i ∉ order.map Prod.fst) :
    Idle key timeout edits start order i ⟨(edits i).operation (timeout i) key, [], ps⟩
  | asking (kind : LockKind) (deadline : Nat) (next : Except LockError Guard → Procedure (Except Failure Outcome))
    (ps : List Path) (hnew : i ∉ order.map Prod.fst) (hrefused : ∀ e, next (.error e) = .done (.error (.lock e)))
    (hsettles : ∀ guard last s, (next (.ok guard)).Settles guard
      (fun answer now stores => (edits i).result key now s = (answer, stores)) last s) :
    Idle key timeout edits start order i ⟨.lock key.path kind deadline next, [], ps⟩
  | refused (waited : Nat) (ps : List Path) (hnew : i ∉ order.map Prod.fst) :
    Idle key timeout edits start order i ⟨.done (.error (.lock (.overflow key.path.text waited))), [], ps⟩
  | answered (answer : Except Failure Outcome) (ps : List Path)
    (hanswer : (i, answer) ∈ (inTurn key timeout edits start order).1) :
    Idle key timeout edits start order i ⟨.done answer, [], ps⟩

/-- A caller without the lock makes no access. -/
theorem Idle.rest_ne_access {order : List (ι × Nat)} {i : ι} {c : Caller (Except Failure Outcome)}
    (h : Idle key timeout edits start order i c) (update : Nat → Stores → Stores)
    (next : Nat → Stores → Procedure (Except Failure Outcome)) : c.rest ≠ .access update next := by
  cases h with
  | fresh =>
    obtain ⟨_, _, _, heq, _⟩ := (edits i).takesLock_operation (timeout i) key
    rw [heq]
    nofun
  | asking | refused | answered => nofun

/-- A caller without the lock still is so after another call. -/
theorem Idle.concat {order : List (ι × Nat)} {i j : ι} {now : Nat} {c : Caller (Except Failure Outcome)}
    (h : Idle key timeout edits start order j c) (hj : j ≠ i) :
    Idle key timeout edits start (order ++ [(i, now)]) j c := by
  have hnew : j ∉ order.map Prod.fst → j ∉ (order ++ [(i, now)]).map Prod.fst := by
    intro h
    simp only [List.map_append, List.map_cons, List.map_nil, List.mem_append, List.mem_singleton, not_or]
    exact ⟨h, hj⟩
  cases h with
  | fresh ps h => exact .fresh ps (hnew h)
  | asking kind deadline next ps h hrefused hsettles => exact .asking kind deadline next ps (hnew h) hrefused hsettles
  | refused waited ps h => exact .refused waited ps (hnew h)
  | answered answer ps hanswer =>
    refine .answered answer ps ?_
    rw [inTurn, inTurn_concat]
    exact List.mem_append_left _ hanswer

/-- Unless it gets the lock, a caller without it goes on without it and leaves the stores and locks as they are. -/
theorem Idle.step {order : List (ι × Nat)} {i : ι} {c c' : Caller (Except Failure Outcome)} {s s' : Service}
    (h : Idle key timeout edits start order i c) (hstep : Caller.Step (c, s) (c', s'))
    (hguards : c'.guards.length ≤ c.guards.length)
    (hlocks : ∀ now kind, (s.locks.tryAcquire now key.path kind).1 = none →
      (s.locks.tryAcquire now key.path kind).2 = s.locks) :
    Idle key timeout edits start order i c' ∧ s'.stores = s.stores ∧ s'.locks = s.locks := by
  cases h with
  | fresh ps hnew =>
    obtain ⟨kind, deadline, next, heq, hrefused, hsettles⟩ := (edits i).takesLock_operation (timeout i) key
    generalize hrest : (edits i).operation (timeout i) key = rest at hstep heq
    subst heq
    cases hstep with
    | clock => exact ⟨.asking kind _ next ps hnew hrefused hsettles, rfl, rfl⟩
    | waited => exact ⟨hrest ▸ .fresh ps hnew, rfl, rfl⟩
  | asking kind deadline next ps hnew hrefused hsettles =>
    cases hstep with
    | granted => simp at hguards
    | refused waited hnone =>
      obtain ⟨locks, hregistry, rfl⟩ := Caller.exists_of_tryAcquire hnone
      have hsame : locks = s.locks := by
        have hsame := hlocks s.now kind (by rw [hregistry])
        rwa [hregistry] at hsame
      rw [hrefused]
      exact ⟨.refused waited _ hnew, rfl, hsame⟩
    | waited => exact ⟨.asking kind deadline next ps hnew hrefused hsettles, rfl, rfl⟩
  | refused waited ps hnew =>
    generalize hgs : ([] : List Guard) = gs at hstep
    cases hstep with
    | released => simp at hgs
    | waited => exact ⟨hgs ▸ .refused waited ps hnew, rfl, rfl⟩
  | answered answer ps hanswer =>
    generalize hgs : ([] : List Guard) = gs at hstep
    cases hstep with
    | released => simp at hgs
    | waited => exact ⟨hgs ▸ .answered answer ps hanswer, rfl, rfl⟩

/-- Callers that change one entity: nobody has its lock, or the last in the order has it and what the others did is
finished. -/
inductive Serial (key : EntityKey) (timeout : ι → Nat) (edits : ι → Edit) (start : Service) :
    List (ι × Nat) → Callers ι (Except Failure Outcome) → Prop where
  | free {order callers s} (hnodup : (order.map Prod.fst).Nodup) (hlocks : s.locks = start.locks)
    (hstores : s.stores = (inTurn key timeout edits start order).2.stores)
    (hidle : ∀ i, Idle key timeout edits start order i (callers i)) : Serial key timeout edits start order (callers, s)
  | held {finished callers s} (i : ι) (kind : LockKind) (since last : Nat)
    (hnodup : ((finished ++ [(i, last)]).map Prod.fst).Nodup)
    (hlocks : s.locks = start.locks.taken key.path since)
    (hguards : (callers i).guards = [⟨key.path, kind, 1⟩])
    (hsettles : (callers i).rest.Settles ⟨key.path, kind, 1⟩ (fun answer now stores =>
      (edits i).result key now (inTurn key timeout edits start finished).2.stores = (answer, stores)) last s.stores)
    (hidle : ∀ j, j ≠ i → Idle key timeout edits start finished j (callers j)) :
    Serial key timeout edits start (finished ++ [(i, last)]) (callers, s)

namespace Serial

variable {order : List (ι × Nat)} {callers : ι → Caller (Except Failure Outcome)} {s s' : Service}

theorem begin : Serial key timeout edits start [] (fun i => .begin ((edits i).operation (timeout i) key), start) :=
  .free .nil rfl rfl fun _ => .fresh [] (List.not_mem_nil)

theorem clock (h : Serial key timeout edits start order (callers, s)) (now : Nat) :
    Serial key timeout edits start order (callers, { s with now }) := by
  cases h with
  | free hnodup hlocks hstores hidle => exact .free hnodup hlocks hstores hidle
  | held i kind since last hnodup hlocks hguards hsettles hidle =>
    exact .held i kind since last hnodup hlocks hguards hsettles hidle

variable [DecidableEq ι]

/-- Only a caller that asks for the lock while it is free gets it. -/
theorem granted (hlease : start.locks.lease = none) (hfree : start.locks.entries.contains key.path = false)
    (h : Serial key timeout edits start order (callers, s)) {i : ι} {path : Path} {kind : LockKind} {deadline : Nat}
    {next : Except LockError Guard → Procedure (Except Failure Outcome)} {gs : List Guard} {ps : List Path} {g : Guard}
    (hi : callers i = ⟨.lock path kind deadline next, gs, ps⟩) (htaken : s.tryAcquire path kind = (some g, s')) :
    Serial key timeout edits start (order ++ [(i, s.now)])
      (Function.update callers i ⟨next (.ok g), gs ++ [g], ps ++ [path]⟩, s') := by
  obtain ⟨locks, hregistry, rfl⟩ := Caller.exists_of_tryAcquire htaken
  -- While one caller has the lock, it asks for no other, and those who ask for it are refused.
  cases h with
  | free hnodup hlocks hstores hidle =>
    have hasking := hidle i
    rw [hi] at hasking
    generalize hrest : Procedure.lock path kind deadline next = rest at hasking
    cases hasking with
    | fresh _ hnew =>
      obtain ⟨_, _, _, heq, _⟩ := (edits i).takesLock_operation (timeout i) key
      rw [heq] at hrest
      cases hrest
    | refused | answered => cases hrest
    | asking _ _ _ _ hnew hrefused hsettles =>
      cases hrest
      rw [hlocks, LockRegistry.tryAcquire_of_untracked hfree] at hregistry
      cases hregistry
      refine .held i kind s.now s.now ?_ rfl ?_ ?_ fun j hj => ?_
      · rw [List.map_append, List.nodup_append]
        refine ⟨hnodup, List.pairwise_singleton _ _, fun j hj k hk => ?_⟩
        obtain rfl : k = i := List.mem_singleton.mp hk
        exact fun h => hnew (h ▸ hj)
      · rw [Function.update_self]
        rfl
      · rw [Function.update_self, ← hstores]
        exact hsettles _ _ _
      · rw [Function.update_of_ne hj]
        exact hidle j
  | held j kind' since last hnodup hlocks hguards hsettles hidle =>
    by_cases hij : i = j
    · subst hij
      rw [hi] at hsettles
      cases hsettles
    · have hasking := hidle i hij
      rw [hi] at hasking
      generalize hrest : Procedure.lock path kind deadline next = rest at hasking
      cases hasking with
      | fresh =>
        obtain ⟨_, _, _, heq, _⟩ := (edits i).takesLock_operation (timeout i) key
        rw [heq] at hrest
        cases hrest
      | refused | answered => cases hrest
      | asking =>
        cases hrest
        rw [hlocks, LockRegistry.tryAcquire_taken hlease] at hregistry
        cases hregistry

theorem map_restamp {finished : List (ι × Nat)} {i : ι} {last : Nat}
    (hnodup : ((finished ++ [(i, last)]).map Prod.fst).Nodup) (now : Nat) :
    ((finished ++ [(i, last)]).map fun e => if e.1 = i then (i, now) else e) = finished ++ [(i, now)] := by
  have hnew : i ∉ finished.map Prod.fst := by
    rw [List.map_append, List.nodup_append] at hnodup
    exact fun h => hnodup.2.2 i h i (List.mem_singleton_self i) rfl
  have hkeep : finished.map (fun e => if e.1 = i then (i, now) else e) = finished := by
    refine (List.map_congr_left fun e he => ?_).trans (List.map_id _)
    exact if_neg fun h : e.1 = i => hnew (h ▸ List.mem_map_of_mem he)
  rw [List.map_append, hkeep]
  simp

/-- Only the caller with the lock makes an access. -/
theorem accessed (h : Serial key timeout edits start order (callers, s)) {i : ι} {update : Nat → Stores → Stores}
    {next : Nat → Stores → Procedure (Except Failure Outcome)} {gs : List Guard} {ps : List Path}
    (hi : callers i = ⟨.access update next, gs, ps⟩) :
    Serial key timeout edits start (order.map fun e => if e.1 = i then (i, s.now) else e)
      (Function.update callers i ⟨next s.now s.stores, gs, ps⟩, { s with stores := update s.now s.stores }) := by
  have hrest : (callers i).rest = .access update next := by rw [hi]
  cases h with
  | free _ _ _ hidle => exact ((hidle i).rest_ne_access _ _ hrest).elim
  | held j kind since last hnodup hlocks hguards hsettles hidle =>
    by_cases hij : i = j
    · subst hij
      rw [hi] at hguards hsettles
      rw [map_restamp hnodup]
      refine .held i kind since s.now ?_ hlocks ?_ ?_ fun j hj => ?_
      · rwa [List.map_append] at hnodup ⊢
      · rw [Function.update_self]
        exact hguards
      · rw [Function.update_self]
        exact hsettles s.now
      · rw [Function.update_of_ne hj]
        exact hidle j hj
    · exact ((hidle i hij).rest_ne_access _ _ hrest).elim

/-- Giving up the lock ends a call; all other steps leave it where it is. -/
theorem other (hlease : start.locks.lease = none) (hfree : start.locks.entries.contains key.path = false)
    (h : Serial key timeout edits start order (callers, s)) {i : ι} {c c' : Caller (Except Failure Outcome)}
    (hi : callers i = c) (hstep : Caller.Step (c, s) (c', s')) (haccess : ∀ update next, c.rest ≠ .access update next)
    (hguards : c'.guards.length ≤ c.guards.length) :
    Serial key timeout edits start order (Function.update callers i c', s') := by
  have hothers : ∀ {order} c' j, j ≠ i → Idle key timeout edits start order j (callers j) →
      Idle key timeout edits start order j (Function.update callers i c' j) := by
    intro order c' j hj h
    rwa [Function.update_of_ne hj]
  cases h with
  | free hnodup hlocks hstores hidle =>
    obtain ⟨hc, hstores', hlocks'⟩ := (hi ▸ hidle i).step hstep hguards fun now kind hnone => by
      rw [hlocks, LockRegistry.tryAcquire_of_untracked hfree] at hnone
      cases hnone
    refine .free hnodup (hlocks'.trans hlocks) (hstores'.trans hstores) fun j => ?_
    by_cases hj : j = i
    · subst hj
      rwa [Function.update_self]
    · exact hothers c' j hj (hidle j)
  | @held finished _ _ j kind since last hnodup hlocks hown hsettles hidle =>
    by_cases hij : i = j
    · subst hij
      obtain ⟨rest, gs, ps⟩ := c
      rw [hi] at hown hsettles
      obtain rfl : gs = [⟨key.path, kind, 1⟩] := hown
      have hheld : ∀ rest ps now, rest.Settles ⟨key.path, kind, 1⟩ (fun answer now stores =>
          (edits i).result key now (inTurn key timeout edits start finished).2.stores = (answer, stores)) last
          s.stores → Serial key timeout edits start (finished ++ [(i, last)])
            (Function.update callers i ⟨rest, [⟨key.path, kind, 1⟩], ps⟩, { s with now }) := by
        intro rest ps now hrest
        refine .held i kind since last hnodup hlocks ?_ ?_ fun j hj => hothers _ j hj (hidle j hj)
        · rw [Function.update_self]
        · rwa [Function.update_self]
      generalize hgs : [(⟨key.path, kind, 1⟩ : Guard)] = gs at hstep
      cases hstep with
      | clock => exact hgs ▸ hheld _ ps s.now (hsettles s.now)
      | granted | refused => cases hsettles
      | @ensured g next =>
        obtain ⟨rfl, hrest⟩ := hsettles
        have hholds : s.locks.holds s.now ⟨key.path, kind, 1⟩ = true := by
          rw [hlocks]
          exact LockRegistry.holds_taken hlease
        rw [LockRegistry.ensure, hholds]
        exact hgs ▸ hheld _ ps s.now hrest
      | accessed => exact (haccess _ _ rfl).elim
      | @released answer gs g gs' =>
        obtain ⟨rfl, rfl, rfl⟩ : gs = [] ∧ g = ⟨key.path, kind, 1⟩ ∧ gs' = [] := by
          cases gs with
          | nil => simpa [eq_comm] using hgs
          | cons _ _ => simp at hgs
        obtain ⟨hanswer, hstores⟩ := of_result hlease hfree hsettles
        refine .free hnodup ?_ hstores.symm fun j => ?_
        · simp only [Service.release, hlocks]
          exact LockRegistry.release_taken hfree
        · by_cases hj : j = i
          · subst hj
            rw [Function.update_self]
            exact .answered answer ps hanswer
          · exact hothers _ j hj ((hidle j hj).concat hj)
      | waited millis => exact hgs ▸ hheld rest ps (s.now + millis) hsettles
    · have htaken : ∀ now kind, s.locks.tryAcquire now key.path kind = (none, s.locks) := by
        intro now kind
        rw [hlocks]
        exact LockRegistry.tryAcquire_taken hlease
      obtain ⟨hc, hstores', hlocks'⟩ := (hi ▸ hidle i hij).step hstep hguards fun now kind _ => by rw [htaken]
      refine .held j kind since last hnodup (hlocks'.trans hlocks) ?_ ?_ fun k hk => ?_
      · rwa [Function.update_of_ne (Ne.symm hij)]
      · rwa [Function.update_of_ne (Ne.symm hij), hstores']
      · by_cases hki : k = i
        · subst hki
          rwa [Function.update_self]
        · exact hothers c' k hki (hidle k hk)

theorem of_run (hlease : start.locks.lease = none) (hfree : start.locks.entries.contains key.path = false)
    {x : Callers ι (Except Failure Outcome)}
    (h : Run (fun i => .begin ((edits i).operation (timeout i) key), start) order x) :
    Serial key timeout edits start order x := by
  induction h with
  | start => exact begin
  | clock now _ ih => exact ih.clock now
  | granted _ hi htaken ih => exact ih.granted hlease hfree hi htaken
  | accessed _ hi ih => exact ih.accessed hi
  | other _ hi hstep haccess hguards ih => exact ih.other hlease hfree hi hstep haccess hguards

/-- Whoever has answered was refused the lock or answered as in its turn. -/
theorem answer (hlease : start.locks.lease = none) (hfree : start.locks.entries.contains key.path = false)
    (h : Serial key timeout edits start order (callers, s)) {i : ι} {answer : Except Failure Outcome}
    (hdone : (callers i).rest = .done answer) :
    (i ∉ order.map Prod.fst ∧ ∃ waited, answer = .error (.lock (.overflow key.path.text waited))) ∨
      (i, answer) ∈ (inTurn key timeout edits start order).1 := by
  have hidle : ∀ {order}, Idle key timeout edits start order i (callers i) →
      (i ∉ order.map Prod.fst ∧ ∃ waited, answer = .error (.lock (.overflow key.path.text waited))) ∨
        (i, answer) ∈ (inTurn key timeout edits start order).1 := by
    intro order h
    generalize callers i = c at h hdone
    cases h with
    | fresh =>
      obtain ⟨_, _, _, heq, _⟩ := (edits i).takesLock_operation (timeout i) key
      rw [heq] at hdone
      cases hdone
    | asking => cases hdone
    | refused waited ps hnew =>
      cases hdone
      exact .inl ⟨hnew, waited, rfl⟩
    | answered answer ps hanswer =>
      cases hdone
      exact .inr hanswer
  cases h with
  | free _ _ _ h => exact hidle (h i)
  | @held finished _ _ j kind since last hnodup hlocks hguards hsettles h =>
    by_cases hij : i = j
    · subst hij
      rw [hdone] at hsettles
      exact .inr (of_result hlease hfree hsettles).1
    · exact hidle ((h i hij).concat hij)

omit [DecidableEq ι] in
/-- When nobody is between its lock and its answer, the stores are those after all calls in turn. -/
theorem stores_eq (hlease : start.locks.lease = none) (hfree : start.locks.entries.contains key.path = false)
    (h : Serial key timeout edits start order (callers, s))
    (hdone : ∀ i ∈ order.map Prod.fst, ∃ answer, (callers i).rest = .done answer) :
    s.stores = (inTurn key timeout edits start order).2.stores := by
  cases h with
  | free _ _ hstores _ => exact hstores
  | @held finished _ _ i kind since last hnodup hlocks hguards hsettles h =>
    obtain ⟨answer, hi⟩ := hdone i (by simp)
    rw [hi] at hsettles
    exact (of_result hlease hfree hsettles).2.symm

end Serial

/-- Any number of callers create, replace, merge and delete one entity under locks without a lease, and their steps
come in any order. Whoever answers was refused the lock, or answers as if all calls that got it had been made one after
another in the order in which they got it, each at the time of its last access. The stores then are those that these
calls leave. From everywhere each caller can come to its answer and give up its lock. Calls that one client makes one
after another are callers that begin when those before have answered. -/
theorem serializable [DecidableEq ι] (key : EntityKey) (timeout : ι → Nat) (edits : ι → Edit) (start : Service)
    (hlease : start.locks.lease = none) (hfree : start.locks.entries.contains key.path = false)
    (order : List (ι × Nat)) (callers : ι → Caller (Except Failure Outcome)) (s : Service)
    (hrun : Run (fun i => .begin ((edits i).operation (timeout i) key), start) order (callers, s)) :
    (order.map Prod.fst).Nodup ∧
      (∀ i answer, (callers i).rest = .done answer →
        (i ∉ order.map Prod.fst ∧ ∃ waited, answer = .error (.lock (.overflow key.path.text waited))) ∨
          (i, answer) ∈ (Callers.inTurn (fun i => (edits i).operation (timeout i) key) start order).1) ∧
      ((∀ i ∈ order.map Prod.fst, ∃ answer, (callers i).rest = .done answer) →
        s.stores = (Callers.inTurn (fun i => (edits i).operation (timeout i) key) start order).2.stores) ∧
      ∀ i, ∃ order answer ps s', Run (fun i => .begin ((edits i).operation (timeout i) key), start) order
        (Function.update callers i ⟨.done answer, [], ps⟩, s') := by
  have hserial : Serial key timeout edits start order (callers, s) := .of_run hlease hfree hrun
  refine ⟨?_, fun i answer hdone => hserial.answer hlease hfree hdone, hserial.stores_eq hlease hfree, fun i => ?_⟩
  · cases hserial with
    | free hnodup => exact hnodup
    | held _ _ _ _ hnodup => exact hnodup
  · obtain ⟨ps, hreaches⟩ := Caller.reaches_runWith (callers i).rest (callers i).guards (callers i).requested s
    obtain ⟨order, hrun⟩ := hrun.reaches hreaches
    exact ⟨order, _, ps, _, hrun⟩

/-- One caller creates an entity, and one that began before it but gets the lock later replaces it. -/
theorem serializable_create_replace :
    ∃ (callers : Bool → Caller (Except Failure Outcome)) (s : Service),
      Run (fun i => .begin ((if i then Edit.create .empty else Edit.replace .empty .any).operation 5 ⟨"T", "a"⟩),
        .start none 1) [(true, 1), (false, 3)] (callers, s) ∧
      (callers false).rest = .done (.ok (.updated ⟨2, 3⟩)) ∧
      s.stores = (Callers.inTurn (fun i =>
        (if i then Edit.create .empty else Edit.replace .empty .any).operation 5 ⟨"T", "a"⟩) (.start none 1)
        [(true, 1), (false, 3)]).2.stores := by
  let edits : Bool → Edit := fun i => if i then .create .empty else .replace .empty .any
  let begun : Bool → Caller (Except Failure Outcome) := fun i => .begin ((edits i).operation 5 ⟨"T", "a"⟩)
  have hbegun : Run (begun, .start none 1) [] (begun, .start none 1) := .start
  have h1 := hbegun.other (i := false) rfl .clock nofun (Nat.le_refl _)
  have h2 := h1.other (i := true) rfl .clock nofun (Nat.le_refl _)
  have h3 := h2.granted (i := true) rfl rfl
  have h4 := h3.accessed (i := true) rfl
  have h5 := h4.other (i := true) rfl (@Caller.Step.released _ _ [] _ [] _ _) nofun (by decide)
  have h6 := (h5.clock 3).granted (i := false) rfl rfl
  have h7 := h6.accessed (i := false) rfl
  have h8 := h7.other (i := false) rfl .ensured nofun (Nat.le_refl _)
  have h9 := h8.accessed (i := false) rfl
  have hstores := (serializable ⟨"T", "a"⟩ (fun _ => 5) edits _ rfl rfl _ _ _ h9).2.2.1
  exact ⟨_, _, h9, rfl, hstores fun i _ => by cases i <;> exact ⟨_, rfl⟩⟩

end Edit

end EntityStore
