import EntityStore.Proofs.Lock.Consistent

/-!
# Histories of a registry

Callers take locks and give up guards one after the other, in any order and with any time between. The guards have
numbers, since a path whose lock was forgotten issues the same tokens again. One inversion lemma says what a step
can do; what it preserves holds in every history. Main statement: `guards_run`.
-/
namespace EntityStore

/-- A registry with the guards that callers have on it, each under a number of its own, at one moment. -/
structure Tenancy where
  locks : LockRegistry
  guards : List (Nat × Guard)
  /-- The guards that were ever given. -/
  given : Nat
  now : Nat

/-- What a caller can do with the locks. -/
inductive LockEvent where
  | acquire (timeout : Nat) (path : Path) (kind : LockKind)
  | tryAcquire (path : Path) (kind : LockKind)
  /-- Gives up the guard with a number, if there is one. -/
  | release (number : Nat)

namespace Tenancy

def start (lease : Option Nat) (now : Nat) : Tenancy := ⟨.empty lease, [], 0, now⟩

/-- The guards without their numbers. -/
def held (h : Tenancy) : List Guard := h.guards.map (·.2)

/-- Does a guard still hold its lock? -/
def passes (h : Tenancy) (g : Guard) : Prop := h.locks.ensure h.now g = .ok ()

/-- A caller has taken a lock. -/
def take (h : Tenancy) (locks : LockRegistry) (now : Nat) (g : Guard) : Tenancy :=
  ⟨locks, (h.given, g) :: h.guards, h.given + 1, now⟩

/-- Some time passes, and then something happens. -/
def step (h : Tenancy) (event : Nat × LockEvent) : Tenancy :=
  let now := h.now + event.1
  match event.2 with
  | .acquire timeout p kind =>
    match h.locks.acquire now timeout p kind with
    | (.ok g, locks, now) => h.take locks now g
    | (.error _, locks, now) => { h with locks, now }
  | .tryAcquire p kind =>
    match h.locks.tryAcquire now p kind with
    | (some g, locks) => h.take locks now g
    | (none, locks) => { h with locks, now }
  | .release number =>
    match h.guards.find? fun x => x.1 == number with
    | some x =>
      { h with locks := (h.locks.release now x.2).2, guards := h.guards.eraseP fun x => x.1 == number, now }
    | none => { h with now }

def run (h : Tenancy) (events : List (Nat × LockEvent)) : Tenancy := events.foldl step h

/-- The registry goes with the guards, and numbers are not given twice. -/
structure Valid (h : Tenancy) : Prop where
  consistent : h.locks.Consistent h.held
  distinct : (h.guards.map (·.1)).Nodup
  given : ∀ x ∈ h.guards, x.1 < h.given

theorem valid_start (lease : Option Nat) (now : Nat) : (start lease now).Valid :=
  ⟨LockRegistry.consistent_empty lease, .nil, nofun⟩

variable {h : Tenancy}

theorem passes_iff {g : Guard} : h.passes g ↔ h.locks.holds h.now g = true := by
  unfold passes LockRegistry.ensure
  split <;> simp_all

theorem Valid.consistent_of_perm (hvalid : h.Valid) {x : Nat × Guard} {guards : List (Nat × Guard)}
    (hperm : h.guards.Perm (x :: guards)) : h.locks.Consistent (x.2 :: guards.map (·.2)) :=
  hvalid.consistent.perm (hperm.map Prod.snd)

theorem Valid.step_release (hvalid : h.Valid) {x : Nat × Guard} (hx : x ∈ h.guards) (pause : Nat) :
    ∃ guards, h.guards.Perm (x :: guards) ∧ guards.Sublist h.guards ∧
      h.step (pause, .release x.1) =
        { h with locks := (h.locks.release (h.now + pause) x.2).2, guards, now := h.now + pause } := by
  obtain ⟨before, after, heq⟩ := List.append_of_mem hx
  have hdistinct := hvalid.distinct
  rw [heq, List.map_append, List.map_cons, List.nodup_append] at hdistinct
  have hbefore : ∀ y ∈ before, ¬ (y.1 == x.1) = true := by
    intro y hy hyx
    exact hdistinct.2.2 y.1 (List.mem_map_of_mem hy) x.1 List.mem_cons_self (by simpa using hyx)
  have hfound : h.guards.find? (fun y => y.1 == x.1) = some x := by
    rw [List.find?_eq_some_iff_append]
    exact ⟨by simp, before, after, heq, fun y hy => by simpa using hbefore y hy⟩
  have herase : h.guards.eraseP (fun y => y.1 == x.1) = before ++ after := by
    rw [heq, List.eraseP_append_right _ hbefore, List.eraseP_cons_of_pos (by simp)]
  refine ⟨before ++ after, heq ▸ List.perm_middle, herase ▸ List.eraseP_sublist, ?_⟩
  simp only [Tenancy.step, hfound, herase]

/-- The three things that can come of a step: nothing but time passes, a caller gets a guard, or a guard is given
up. -/
theorem Valid.step_cases (hvalid : h.Valid) (event : Nat × LockEvent) :
    ∃ later, h.now ≤ later ∧
      (h.step event = { h with now := later } ∨
      (∃ p kind g locks, h.locks.tryAcquire later p kind = (some g, locks) ∧
        h.step event = h.take locks later g) ∨
      ∃ x guards, h.guards.Perm (x :: guards) ∧ guards.Sublist h.guards ∧
        h.step event = { h with locks := (h.locks.release later x.2).2, guards, now := later }) := by
  obtain ⟨pause, event⟩ := event
  have hpause : h.now ≤ h.now + pause := Nat.le_add_right _ _
  cases event with
  | acquire timeout p kind =>
    simp only [step]
    rcases LockRegistry.acquire_cases h.locks (h.now + pause) timeout p kind with
      ⟨later, g, locks, hle, htaken, hresult⟩ | ⟨later, locks, hle, hrefused, hresult⟩
    · rw [hresult]
      exact ⟨later, Nat.le_trans hpause hle, .inr (.inl ⟨p, kind, g, locks, htaken, rfl⟩)⟩
    · rw [hresult, (hvalid.consistent.of_refused hrefused).2]
      exact ⟨later, Nat.le_trans hpause hle, .inl rfl⟩
  | tryAcquire p kind =>
    refine ⟨h.now + pause, hpause, ?_⟩
    simp only [step]
    cases hresult : h.locks.tryAcquire (h.now + pause) p kind with
    | mk answer locks =>
      cases answer with
      | some g => exact .inr (.inl ⟨p, kind, g, locks, hresult, rfl⟩)
      | none =>
        rw [(hvalid.consistent.of_refused hresult).2]
        exact .inl rfl
  | release number =>
    cases hfound : h.guards.find? fun x => x.1 == number with
    | none => exact ⟨h.now + pause, hpause, .inl (by simp only [step, hfound])⟩
    | some x =>
      obtain rfl : x.1 = number := by simpa using List.find?_some hfound
      obtain ⟨guards, hstep⟩ := hvalid.step_release (List.mem_of_find?_eq_some hfound) pause
      exact ⟨h.now + pause, hpause, .inr (.inr ⟨x, guards, hstep⟩)⟩

/-- A guard that a step leaves was there before or gets the next number. -/
theorem Valid.mem_step (hvalid : h.Valid) (event : Nat × LockEvent) :
    h.given ≤ (h.step event).given ∧ ∀ x ∈ (h.step event).guards, x ∈ h.guards ∨ h.given ≤ x.1 := by
  obtain ⟨later, _, heq | ⟨p, kind, g, locks, _, heq⟩ | ⟨x, guards, _, hsub, heq⟩⟩ := hvalid.step_cases event
  · rw [heq]
    exact ⟨Nat.le_refl _, fun y hy => .inl hy⟩
  · rw [heq]
    refine ⟨Nat.le_succ _, fun y hy => ?_⟩
    rcases List.mem_cons.mp hy with rfl | hy
    · exact .inr (Nat.le_refl _)
    · exact .inl hy
  · rw [heq]
    exact ⟨Nat.le_refl _, fun y hy => .inl (hsub.subset hy)⟩

theorem Valid.step (hvalid : h.Valid) (event : Nat × LockEvent) : (h.step event).Valid := by
  obtain ⟨later, _, heq | ⟨p, kind, g, locks, htaken, heq⟩ | ⟨x, guards, hperm, hsub, heq⟩⟩ :=
    hvalid.step_cases event
  · rw [heq]
    exact ⟨hvalid.consistent, hvalid.distinct, hvalid.given⟩
  · rw [heq]
    refine ⟨hvalid.consistent.tryAcquire htaken, List.nodup_cons.mpr ⟨fun hmem => ?_, hvalid.distinct⟩, ?_⟩
    · obtain ⟨y, hy, hnumber⟩ := List.mem_map.mp hmem
      have hlt := hvalid.given y hy
      simp only at hnumber
      omega
    · intro y hy
      rcases List.mem_cons.mp hy with rfl | hy
      · exact Nat.lt_succ_self _
      · exact Nat.lt_succ_of_lt (hvalid.given y hy)
  · rw [heq]
    exact ⟨(hvalid.consistent_of_perm hperm).release later, hvalid.distinct.sublist (hsub.map _),
      fun y hy => hvalid.given y (hsub.subset hy)⟩

theorem Valid.run (hvalid : h.Valid) (events : List (Nat × LockEvent)) : (h.run events).Valid := by
  induction events generalizing h with
  | nil => exact hvalid
  | cons event rest ih => exact ih (hvalid.step event)

/-! ## A guard that lost its lock -/

/-- A step gives no lock back to a guard. -/
theorem Valid.passes_of_step (hvalid : h.Valid) {event : Nat × LockEvent} {x : Nat × Guard} (hx : x ∈ h.guards)
    (hkept : x ∈ (h.step event).guards) (hpasses : (h.step event).passes x.2) : h.passes x.2 := by
  rw [passes_iff] at hpasses ⊢
  have hmem : x.2 ∈ h.held := List.mem_map_of_mem hx
  obtain ⟨later, hle, heq | ⟨p, kind, g, locks, htaken, heq⟩ | ⟨y, guards, hperm, _, heq⟩⟩ :=
    hvalid.step_cases event
  · rw [heq] at hpasses
    exact LockRegistry.holds_mono hle hpasses
  · rw [heq] at hpasses
    have hsame := hvalid.consistent.holds_tryAcquire htaken hmem (Nat.le_refl later)
    exact LockRegistry.holds_mono hle (hsame.symm.trans hpasses)
  · rw [heq] at hpasses hkept
    have hsame := (hvalid.consistent_of_perm hperm).holds_release (List.mem_map_of_mem hkept) later later
    exact LockRegistry.holds_mono hle (hsame.symm.trans hpasses)

theorem Valid.given_of_mem_run (hvalid : h.Valid) {events : List (Nat × LockEvent)} {x : Nat × Guard}
    (hx : x ∈ (h.run events).guards) : x ∈ h.guards ∨ h.given ≤ x.1 := by
  induction events generalizing h with
  | nil => exact .inl hx
  | cons event rest ih =>
    obtain ⟨hgiven, hmem⟩ := hvalid.mem_step event
    rcases ih (hvalid.step event) hx with hx | hx
    · exact hmem x hx
    · exact .inr (Nat.le_trans hgiven hx)

/-- No history gives a lock back to a guard, as long as its caller has it. -/
theorem Valid.passes_of_run (hvalid : h.Valid) {events : List (Nat × LockEvent)} {x : Nat × Guard} (hx : x ∈ h.guards)
    (hkept : x ∈ (h.run events).guards) (hpasses : (h.run events).passes x.2) : h.passes x.2 := by
  induction events generalizing h with
  | nil => exact hpasses
  | cons event rest ih =>
    have hbetween : x ∈ (h.step event).guards := by
      rcases (hvalid.step event).given_of_mem_run hkept with hmem | hlate
      · exact hmem
      · have hgiven := (hvalid.mem_step event).1
        have hlt := hvalid.given x hx
        omega
    exact hvalid.passes_of_step hx hbetween (ih (hvalid.step event) hbetween hkept hpasses)

/-! ## Late releases -/

/-- A guard that is given up late, when another tenure has the lock, leaves the lock as it is. -/
theorem Valid.lock_step_release (hvalid : h.Valid) {x : Nat × Guard} (hx : x ∈ h.guards) {t : Tenure}
    (ht : (h.locks.entry x.2.path).lock.holder = some t) (hne : t.token ≠ x.2.token) (pause : Nat) :
    (h.step (pause, .release x.1)).locks.entries.contains x.2.path = true ∧
      ((h.step (pause, .release x.1)).locks.entry x.2.path).lock = (h.locks.entry x.2.path).lock := by
  obtain ⟨guards, hperm, _, heq⟩ := hvalid.step_release hx pause
  have hconsistent := hvalid.consistent_of_perm hperm
  -- the newer tenure has a guard of its own
  have hnewer : ∃ g ∈ guards.map (·.2), g.path = x.2.path := by
    obtain ⟨g, hg, hpath, htoken⟩ := mem_tokensOn_iff.mp ((hconsistent.fits x.2.path).holder t ht).2
    rcases List.mem_cons.mp hg with rfl | hg
    · exact absurd htoken.symm hne
    · exact ⟨g, hg, hpath⟩
  rw [heq]
  refine ⟨((hconsistent.release _).tracked _).mpr (tokensOn_ne_nil_iff.mpr hnewer), ?_⟩
  rw [hconsistent.lock_release hnewer, if_pos rfl, Lock.release_of_ne ht hne]

/-! ## All histories -/

theorem Valid.eq_of_passes (hvalid : h.Valid) {a b : Nat × Guard} (ha : a ∈ h.guards) (hb : b ∈ h.guards)
    (hpath : a.2.path = b.2.path) (hpa : h.passes a.2) (hpb : h.passes b.2) : a = b := by
  rw [passes_iff] at hpa hpb
  obtain ⟨t, ht, hta, _⟩ := LockRegistry.holds_iff.mp hpa
  obtain ⟨t', ht', htb, _⟩ := LockRegistry.holds_iff.mp hpb
  rw [hpath, ht'] at ht
  cases ht
  have hpairwise := List.pairwise_map.mp hvalid.consistent.pairwise
  have hinj : ∀ ⦃x⦄, x ∈ h.guards → ∀ ⦃y⦄, y ∈ h.guards → x.2.path = y.2.path → x.2.token = y.2.token → x = y :=
    List.Pairwise.forall_of_forall_of_flip (fun _ _ _ _ => rfl)
      (hpairwise.imp fun hne hp ht => absurd ht (hne hp))
      (hpairwise.imp fun hne hp ht => absurd ht.symm (hne hp.symm))
  exact hinj ha hb hpath (hta.symm.trans htb)

/-- In every history, a registry has the locks of just those paths that callers have guards on. Of the guards on one
path at most one holds its lock, and no two have the same token; a guard that has lost its lock never gets it back,
and giving it up neither ends the newer tenure nor forgets the lock. -/
theorem guards_run (lease : Option Nat) (now : Nat) (events : List (Nat × LockEvent)) :
    let h := (start lease now).run events
    (∀ p, h.locks.entries.contains p = true ↔ ∃ x ∈ h.guards, x.2.path = p) ∧
    (∀ a ∈ h.guards, ∀ b ∈ h.guards, a.2.path = b.2.path → h.passes a.2 → h.passes b.2 → a = b) ∧
    (h.guards.Pairwise fun a b => a.2.path = b.2.path → a.2.token ≠ b.2.token) ∧
    (∀ x ∈ h.guards, ¬ h.passes x.2 → ∀ more, x ∈ (h.run more).guards → ¬ (h.run more).passes x.2) ∧
    ∀ x ∈ h.guards, ∀ t, (h.locks.entry x.2.path).lock.holder = some t → t.token ≠ x.2.token →
      ∀ pause, (h.step (pause, .release x.1)).locks.entries.contains x.2.path = true ∧
        ((h.step (pause, .release x.1)).locks.entry x.2.path).lock = (h.locks.entry x.2.path).lock := by
  intro h
  have hvalid : h.Valid := (valid_start lease now).run events
  refine ⟨fun p => ?_, fun a ha b hb => hvalid.eq_of_passes ha hb, List.pairwise_map.mp hvalid.consistent.pairwise,
    fun x hx hfails more hkept hpasses => hfails (hvalid.passes_of_run hx hkept hpasses),
    fun x hx t ht hne pause => hvalid.lock_step_release hx ht hne pause⟩
  rw [hvalid.consistent.tracked, tokensOn_ne_nil_iff]
  constructor
  · rintro ⟨g, hg, hpath⟩
    obtain ⟨x, hx, rfl⟩ := List.mem_map.mp hg
    exact ⟨x, hx, hpath⟩
  · rintro ⟨x, hx, hpath⟩
    exact ⟨x.2, List.mem_map_of_mem hx, hpath⟩

end Tenancy

end EntityStore
