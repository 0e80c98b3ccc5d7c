import EntityStore.Proofs.Lock.Tenancy
import Mathlib.Logic.Relation

/-!
# Several locks, all of them or none

One caller takes the locks of several paths in ascending order and gives up those it has when it is refused one. The
others take locks and give up guards at any time between. What a step of the caller or of another preserves holds in
the end; a caller that waits while the others do nothing takes just these steps. Main statement:
`acquireAll_all_or_none`.
-/
namespace EntityStore

theorem Tenancy.Valid.lease_run {h : Tenancy} (hvalid : h.Valid) (events : List (Nat × LockEvent)) :
    (h.run events).locks.lease = h.locks.lease := by
  induction events generalizing h with
  | nil => rfl
  | cons event rest ih =>
    refine (ih (hvalid.step event)).trans ?_
    obtain ⟨later, _, heq | ⟨p, kind, g, locks, htaken, heq⟩ | ⟨x, guards, _, _, heq⟩⟩ := hvalid.step_cases event
    · rw [heq]
    · obtain ⟨_, _, rfl⟩ := LockRegistry.of_tryAcquire htaken
      rw [heq]
      rfl
    · rw [heq]
      exact LockRegistry.lease_release

/-- A new guard passes at its grant, unless its tenure is over as it begins. -/
theorem LockRegistry.ensure_of_tryAcquire {r r' : LockRegistry} {g : Guard} {now : Nat} {p : Path} {kind : LockKind}
    (htaken : r.tryAcquire now p kind = (some g, r')) : r'.ensure now g = .ok () ↔ r.lease ≠ some 0 := by
  obtain ⟨_, rfl, rfl⟩ := of_tryAcquire htaken
  have hholds : (r.set p ⟨((r.entry p).lock.grant now).2, (r.entry p).guards + 1⟩).holds now
      ⟨p, kind, (r.entry p).lock.issued + 1⟩ =
      ((r.entry p).lock.grant now).2.isHeldBy r.lease now ((r.entry p).lock.grant now).1 := by
    rw [holds, entry_set, if_pos rfl]
    rfl
  rw [ensure, hholds]
  by_cases hlease : r.lease = some 0
  · simp [hlease, Lock.isHeldBy, Lock.grant, Lock.hasExpired]
  · simp [hlease, Lock.isHeldBy_grant hlease]

/-- A caller that takes several locks, its guards and those of the others, at one moment. -/
structure Acquisition where
  /-- The paths it has yet to lock, or the refusal that was the end of that. -/
  rest : Except LockError (List Path)
  mine : List Guard
  others : List Guard
  locks : LockRegistry
  now : Nat

namespace Acquisition

def begin (h : Tenancy) (paths : List Path) : Acquisition :=
  ⟨.ok (LockRegistry.inOrder paths), [], h.held, h.locks, h.now⟩

/-- The caller has all its locks, or was refused one and has given up the others. -/
def Answers (a : Acquisition) : Except LockError (List Guard) → Prop
  | .ok gs => a.rest = .ok [] ∧ a.mine = gs
  | .error e => a.rest = .error e ∧ a.mine = []

/-- One step of the caller. It can give up waiting for a lock at any time. -/
inductive Step (kind : LockKind) : Acquisition → Acquisition → Prop where
  | waited {rest gs others r now later} (h : now ≤ later) :
    Step kind ⟨rest, gs, others, r, now⟩ ⟨rest, gs, others, r, later⟩
  | granted {p rest gs others r now g r'} (h : r.tryAcquire now p kind = (some g, r')) :
    Step kind ⟨.ok (p :: rest), gs, others, r, now⟩ ⟨.ok rest, gs ++ [g], others, r', now⟩
  | refused {p rest gs others r now r'} (waited : Nat) (h : r.tryAcquire now p kind = (none, r')) :
    Step kind ⟨.ok (p :: rest), gs, others, r, now⟩ ⟨.error (.overflow p.text waited), gs, others, r', now⟩
  | released {e before g after others r now} :
    Step kind ⟨.error e, before ++ g :: after, others, r, now⟩
      ⟨.error e, before ++ after, others, (r.release now g).2, now⟩

/-- One step of another caller. -/
inductive OtherStep : Acquisition → Acquisition → Prop where
  | taken {rest gs others r now p kind g r'} (h : r.tryAcquire now p kind = (some g, r')) :
    OtherStep ⟨rest, gs, others, r, now⟩ ⟨rest, gs, g :: others, r', now⟩
  | refused {rest gs others r now p kind r'} (h : r.tryAcquire now p kind = (none, r')) :
    OtherStep ⟨rest, gs, others, r, now⟩ ⟨rest, gs, others, r', now⟩
  | released {rest gs before g after r now} :
    OtherStep ⟨rest, gs, before ++ g :: after, r, now⟩ ⟨rest, gs, before ++ after, (r.release now g).2, now⟩

def Reaches (kind : LockKind) : Acquisition → Acquisition → Prop :=
  Relation.ReflTransGen fun a b => Step kind a b ∨ OtherStep a b

variable {lease : Option Nat} {kind : LockKind} {order : List Path} {a b c : Acquisition}

/-! ## What a step preserves -/

theorem perm_release {before after others : List Guard} {g : Guard} :
    (before ++ g :: after ++ others).Perm (g :: (before ++ after ++ others)) := by
  rw [List.append_assoc, List.append_assoc]
  exact List.perm_middle

theorem sublist_release {before after : List Guard} {g : Guard} :
    (before ++ after).Sublist (before ++ g :: after) :=
  (List.Sublist.refl before).append (List.sublist_cons_self g after)

/-- The caller has locked a first part of the paths, and the registry goes with all the guards. -/
structure Sound (lease : Option Nat) (kind : LockKind) (order : List Path) (a : Acquisition) : Prop where
  consistent : a.locks.Consistent (a.mine ++ a.others)
  lease : a.locks.lease = lease
  order : ∀ rest, a.rest = .ok rest → a.mine.map Guard.path ++ rest = order
  kinds : ∀ g ∈ a.mine, g.kind = kind

theorem Sound.step (h : Sound lease kind order a) (hstep : Step kind a b) : Sound lease kind order b := by
  cases hstep with
  | waited => exact ⟨h.consistent, h.lease, h.order, h.kinds⟩
  | @granted p rest gs others r now g r' htaken =>
    have hconsistent : r'.Consistent (g :: (gs ++ others)) := h.consistent.tryAcquire htaken
    obtain ⟨_, rfl, rfl⟩ := LockRegistry.of_tryAcquire htaken
    refine ⟨hconsistent.perm ?_, h.lease, ?_, ?_⟩
    · rw [List.append_assoc]
      exact List.perm_middle.symm
    · intro rest' hrest
      cases hrest
      simpa using h.order _ rfl
    · intro g' hg'
      rcases List.mem_append.mp hg' with hg' | hg'
      · exact h.kinds g' hg'
      · rw [List.mem_singleton.mp hg']
  | refused waited hrefused =>
    obtain ⟨_, rfl⟩ := h.consistent.of_refused hrefused
    exact ⟨h.consistent, h.lease, nofun, h.kinds⟩
  | @released e before g after others r now =>
    exact ⟨(h.consistent.perm perm_release).release now, LockRegistry.lease_release.trans h.lease, nofun,
      fun g' hg' => h.kinds g' (sublist_release.subset hg')⟩

theorem Sound.otherStep (h : Sound lease kind order a) (hstep : OtherStep a b) : Sound lease kind order b := by
  cases hstep with
  | @taken rest gs others r now p kind' g r' htaken =>
    have hconsistent : r'.Consistent (g :: (gs ++ others)) := h.consistent.tryAcquire htaken
    obtain ⟨_, rfl, rfl⟩ := LockRegistry.of_tryAcquire htaken
    exact ⟨hconsistent.perm List.perm_middle.symm, h.lease, h.order, h.kinds⟩
  | refused hrefused =>
    obtain ⟨_, rfl⟩ := h.consistent.of_refused hrefused
    exact ⟨h.consistent, h.lease, h.order, h.kinds⟩
  | @released rest gs before g after r now =>
    have hconsistent : r.Consistent (g :: (gs ++ (before ++ after))) := by
      refine h.consistent.perm ?_
      rw [← List.append_assoc, ← List.append_assoc]
      exact List.perm_middle
    exact ⟨hconsistent.release now, LockRegistry.lease_release.trans h.lease, h.order, h.kinds⟩

theorem Sound.reaches (h : Sound lease kind order a) (hreaches : Reaches kind a b) : Sound lease kind order b := by
  induction hreaches with
  | refl => exact h
  | tail _ hstep ih =>
    rcases hstep with hstep | hstep
    · exact ih.step hstep
    · exact ih.otherStep hstep

/-- The caller leaves the others their guards, and each of these holds its lock at just the times it did. -/
structure Spares (a b : Acquisition) : Prop where
  others : b.others = a.others
  time : a.now ≤ b.now
  tenures : ∀ g ∈ a.others, ∀ later, b.now ≤ later → b.locks.holds later g = a.locks.holds later g

theorem Spares.trans (hab : Spares a b) (hbc : Spares b c) : Spares a c where
  others := hbc.others.trans hab.others
  time := Nat.le_trans hab.time hbc.time
  tenures := fun g hg later hle =>
    (hbc.tenures g (hab.others ▸ hg) later hle).trans (hab.tenures g hg later (Nat.le_trans hbc.time hle))

theorem Sound.spares (h : Sound lease kind order a) (hstep : Step kind a b) : Spares a b := by
  cases hstep with
  | waited hle => exact ⟨rfl, hle, fun _ _ _ _ => rfl⟩
  | granted htaken =>
    exact ⟨rfl, Nat.le_refl _, fun g' hg' later hle =>
      h.consistent.holds_tryAcquire htaken (List.mem_append_right _ hg') hle⟩
  | refused waited hrefused =>
    obtain ⟨_, rfl⟩ := h.consistent.of_refused hrefused
    exact ⟨rfl, Nat.le_refl _, fun _ _ _ _ => rfl⟩
  | released =>
    exact ⟨rfl, Nat.le_refl _, fun g' hg' later _ =>
      (h.consistent.perm perm_release).holds_release (List.mem_append_right _ hg') _ later⟩

theorem Sound.spares_of_alone (h : Sound lease kind order a) (halone : Relation.ReflTransGen (Step kind) a b) :
    Spares a b := by
  have hboth : Sound lease kind order b ∧ Spares a b := by
    induction halone with
    | refl => exact ⟨h, rfl, Nat.le_refl _, fun _ _ _ _ => rfl⟩
    | tail _ hstep ih => exact ⟨ih.1.step hstep, ih.2.trans (ih.1.spares hstep)⟩
  exact hboth.2

/-- Every guard of the caller was granted to it, and passed then. -/
theorem Sound.exists_grant (h : Sound lease kind order a) (hmine : a.mine = []) (hreaches : Reaches kind a b)
    {g : Guard} (hg : g ∈ b.mine) :
    ∃ c d, Reaches kind a c ∧ Step kind c d ∧ Reaches kind d b ∧ d.mine = c.mine ++ [g] ∧
      (d.locks.ensure d.now g = .ok () ↔ lease ≠ some 0) := by
  induction hreaches with
  | refl => simp [hmine] at hg
  | @tail b b' hreaches hstep ih =>
    by_cases hbefore : g ∈ b.mine
    · obtain ⟨c, d, hc, hgrant, hd, hrest⟩ := ih hbefore
      exact ⟨c, d, hc, hgrant, hd.tail hstep, hrest⟩
    · rcases hstep with hstep | hstep
      · have hlease := (h.reaches hreaches).lease
        -- a copy is taken apart, as the step itself is part of the answer
        cases id hstep with
        | granted htaken =>
          have hg : g ∈ [_] := (List.mem_append.mp hg).resolve_left hbefore
          obtain rfl := List.mem_singleton.mp hg
          refine ⟨_, _, hreaches, hstep, .refl, rfl, ?_⟩
          rw [LockRegistry.ensure_of_tryAcquire htaken, ← hlease]
        | waited | refused => exact absurd hg hbefore
        | released => exact absurd (sublist_release.subset hg) hbefore
      · cases hstep <;> exact absurd hg hbefore

/-! ## The end -/

theorem sound_begin {h : Tenancy} (hvalid : h.Valid) (kind : LockKind) (paths : List Path) :
    Sound h.locks.lease kind (LockRegistry.inOrder paths) (begin h paths) where
  consistent := hvalid.consistent
  lease := rfl
  order := fun rest hrest => by
    cases hrest
    rfl
  kinds := nofun

/-- What a caller has that got all its locks. -/
theorem Sound.of_ok (h : Sound lease kind order a) {gs : List Guard} (hanswers : a.Answers (.ok gs)) :
    gs.map Guard.path = order ∧ ∀ g ∈ gs, g.kind = kind := by
  obtain ⟨hrest, rfl⟩ := hanswers
  exact ⟨by simpa using h.order [] hrest, h.kinds⟩

/-- After a refusal there is nothing left but the guards of the others. -/
theorem Sound.of_error (h : Sound lease kind order a) {e : LockError} (hanswers : a.Answers (.error e)) :
    (∀ p t, (a.locks.entry p).lock.holder = some t → ∃ g ∈ a.others, g.path = p ∧ g.token = t.token) ∧
      ∀ p, a.locks.entries.contains p = true ↔ ∃ g ∈ a.others, g.path = p := by
  have hconsistent := h.consistent
  rw [hanswers.2, List.nil_append] at hconsistent
  refine ⟨fun p t ht => ?_, fun p => ?_⟩
  · exact mem_tokensOn_iff.mp ((hconsistent.fits p).holder t ht).2
  · rw [hconsistent.tracked, tokensOn_ne_nil_iff]

/-! ## A caller alone -/

theorem reaches_releaseAll (e : LockError) (gs others : List Guard) (r : LockRegistry) (now : Nat) :
    Relation.ReflTransGen (Step kind) ⟨.error e, gs, others, r, now⟩
      ⟨.error e, [], others, r.releaseAll now gs, now⟩ := by
  induction gs generalizing r with
  | nil => exact .refl
  | cons g gs ih =>
    have hfirst : Step kind ⟨.error e, [] ++ g :: gs, others, r, now⟩
        ⟨.error e, [] ++ gs, others, (r.release now g).2, now⟩ := .released
    exact .head hfirst (ih _)

/-- Taking locks while the others do nothing takes only steps of the caller. -/
theorem exists_of_acquireEach (kind : LockKind) (r : LockRegistry) (now deadline : Nat) (gs others : List Guard)
    (rest : List Path) :
    ∃ result a, r.acquireEach now deadline kind gs rest = (result, a.locks, a.now) ∧ a.Answers result ∧
      Relation.ReflTransGen (Step kind) ⟨.ok rest, gs, others, r, now⟩ a := by
  induction rest generalizing r now gs with
  | nil => exact ⟨.ok gs, ⟨.ok [], gs, others, r, now⟩, rfl, ⟨rfl, rfl⟩, .refl⟩
  | cons p rest ih =>
    rcases LockRegistry.acquire_cases r now (deadline - now) p kind with
      ⟨later, g, r', hle, htaken, hacquire⟩ | ⟨later, r', hle, hrefused, hacquire⟩
    · obtain ⟨result, a, heq, hanswers, hsteps⟩ := ih r' later (gs ++ [g])
      refine ⟨result, a, ?_, hanswers, .head (.waited hle) (.head (.granted htaken) hsteps)⟩
      simp only [LockRegistry.acquireEach, hacquire, heq]
    · refine ⟨.error (.overflow p.text (later - now)), ⟨_, [], others, r'.releaseAll later gs, later⟩, ?_, ⟨rfl, rfl⟩,
        .head (.waited hle) (.head (.refused _ hrefused) (reaches_releaseAll _ gs others r' later))⟩
      simp only [LockRegistry.acquireEach, hacquire]

/-- Whatever the others do, a caller that takes the locks of several paths ends up with one guard for each path, in
ascending order, every one of which passes at its grant if leases have a length; or it is refused, and in the end the
registry has only the locks that the others have guards on, held by them. None of its steps makes a difference to the
guards of the others. While these do nothing, `acquireAll` takes such steps until there is an answer. -/
theorem acquireAll_all_or_none (lease : Option Nat) (now : Nat) (events : List (Nat × LockEvent)) (kind : LockKind)
    (paths : List Path) :
    let h := (Tenancy.start lease now).run events
    let order := LockRegistry.inOrder paths
    (order.Pairwise fun p q => compare p q = .lt) ∧ (∀ p, p ∈ order ↔ p ∈ paths) ∧
    (∀ a, Reaches kind (begin h paths) a →
      (∀ gs, a.Answers (.ok gs) → gs.map Guard.path = order ∧ ∀ g ∈ gs, g.kind = kind ∧
        ∃ b c, Reaches kind (begin h paths) b ∧ Step kind b c ∧ Reaches kind c a ∧ c.mine = b.mine ++ [g] ∧
          (c.locks.ensure c.now g = .ok () ↔ lease ≠ some 0)) ∧
      (∀ e, a.Answers (.error e) →
        (∀ p t, (a.locks.entry p).lock.holder = some t → ∃ g ∈ a.others, g.path = p ∧ g.token = t.token) ∧
        ∀ p, a.locks.entries.contains p = true ↔ ∃ g ∈ a.others, g.path = p) ∧
      ∀ b, Step kind a b → Spares a b) ∧
    ∀ timeout, ∃ result a, h.locks.acquireAll h.now timeout kind paths = (result, a.locks, a.now) ∧
      a.Answers result ∧ Relation.ReflTransGen (Step kind) (begin h paths) a ∧ Spares (begin h paths) a := by
  intro h order
  have hvalid : h.Valid := (Tenancy.valid_start lease now).run events
  have hlease : h.locks.lease = lease := (Tenancy.valid_start lease now).lease_run events
  have hbegin : Sound lease kind order (begin h paths) := hlease ▸ sound_begin hvalid kind paths
  refine ⟨LockRegistry.ascending_inOrder paths, fun p => LockRegistry.mem_inOrder_iff, fun a hreaches => ?_,
    fun timeout => ?_⟩
  · have hsound := hbegin.reaches hreaches
    refine ⟨fun gs hanswers => ?_, fun e => hsound.of_error, fun b => hsound.spares⟩
    obtain ⟨horder, hkinds⟩ := hsound.of_ok hanswers
    obtain ⟨_, rfl⟩ := hanswers
    exact ⟨horder, fun g hg => ⟨hkinds g hg, hbegin.exists_grant rfl hreaches hg⟩⟩
  · obtain ⟨result, a, heq, hanswers, hsteps⟩ :=
      exists_of_acquireEach kind h.locks h.now (h.now + timeout) [] h.held order
    exact ⟨result, a, heq, hanswers, hsteps, hbegin.spares_of_alone hsteps⟩

/-- A lease without any length is over as it begins. -/
theorem not_ensure_of_lease_zero :
    ∃ g locks, (LockRegistry.empty (some 0)).acquireAll 0 0 .content [⟨["a"]⟩] = (.ok [g], locks, 0) ∧
      locks.ensure 0 g = .error (.expired "/a") :=
  ⟨⟨⟨["a"]⟩, .content, 1⟩, _, rfl, rfl⟩

end Acquisition

end EntityStore
