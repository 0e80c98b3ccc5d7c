import EntityStore.Lock.Registry

/-!
# Registries and the guards on them

What a registry has to do with the guards that callers have: it keeps the lock of a path as long as there is a guard
on it, and the latest token that it issued is the only one that can hold. Waiting for a lock is waiting first and
then taking it, if it is free. Main statements: `acquire_cases`, `Consistent.tryAcquire` and `Consistent.release`.
-/
namespace EntityStore

namespace Lock

variable {lease : Option Nat} {now later token : Nat} {l : Lock}

theorem hasExpired_mono (h : now ≤ later) {t : Tenure} (hexpired : hasExpired lease now t = true) :
    hasExpired lease later t = true := by
  cases lease with
  | none => simp [hasExpired] at hexpired
  | some n =>
    simp only [hasExpired, Option.any_some, decide_eq_true_eq] at hexpired ⊢
    omega

theorem isHeld_iff : l.isHeld lease now = true ↔ ∃ t, l.holder = some t ∧ hasExpired lease now t = false := by
  simp [isHeld, Option.any_eq_true]

theorem isHeldBy_iff : l.isHeldBy lease now token = true ↔
    ∃ t, l.holder = some t ∧ t.token = token ∧ hasExpired lease now t = false := by
  simp [isHeldBy, Option.any_eq_true]

/-- A tenure that holds now has held since it began. -/
theorem isHeldBy_mono (h : now ≤ later) (hheld : l.isHeldBy lease later token = true) :
    l.isHeldBy lease now token = true := by
  obtain ⟨t, ht, htoken, hvalid⟩ := isHeldBy_iff.mp hheld
  refine isHeldBy_iff.mpr ⟨t, ht, htoken, ?_⟩
  rw [Bool.eq_false_iff] at hvalid ⊢
  exact fun hexpired => hvalid (hasExpired_mono h hexpired)

/-- When a wait ends with the lock, the lock is free. -/
theorem isHeld_of_openAt? {timeout moment : Nat} (h : l.openAt? lease now timeout = some moment) :
    now ≤ moment ∧ l.isHeld lease moment = false := by
  cases hheld : l.isHeld lease now with
  | false =>
    simp only [openAt?, hheld] at h
    cases h
    exact ⟨Nat.le_refl _, hheld⟩
  | true =>
    obtain ⟨t, ht, hvalid⟩ := isHeld_iff.mp hheld
    cases lease with
    | none => simp [openAt?, hheld] at h
    | some n =>
      simp only [openAt?, hheld, ht, if_true] at h
      split at h
      · cases h
        simp only [hasExpired, Option.any_some, decide_eq_false_iff_not] at hvalid
        have hended : hasExpired (some n) (t.since + n) t = true := by
          simp [hasExpired]
        exact ⟨by omega, by simp [isHeld, ht, hended]⟩
      · cases h

/-- When a wait ends without the lock, somebody still holds it. -/
theorem isHeld_of_openAt?_eq_none {timeout : Nat} (h : l.openAt? lease now timeout = none) :
    l.isHeld lease (now + min timeout waitMax) = true := by
  cases hheld : l.isHeld lease now with
  | false => simp [openAt?, hheld] at h
  | true =>
    obtain ⟨t, ht, hvalid⟩ := isHeld_iff.mp hheld
    refine isHeld_iff.mpr ⟨t, ht, ?_⟩
    cases lease with
    | none => rfl
    | some n =>
      simp only [openAt?, hheld, ht, if_true] at h
      split at h
      · cases h
      · simp only [hasExpired, Option.any_some, decide_eq_false_iff_not] at hvalid ⊢
        omega

@[simp] theorem issued_release : (l.release token).2.issued = l.issued := by
  unfold release
  split <;> rfl

/-- A release ends no tenure but that of its token. -/
theorem holder_release : (l.release token).2.holder = l.holder.filter fun t => t.token != token := by
  unfold release
  cases h : l.holder with
  | none => simp [h]
  | some t => by_cases ht : t.token = token <;> simp [h, ht, Option.filter]

theorem release_of_ne {t : Tenure} (h : l.holder = some t) (hne : t.token ≠ token) :
    l.release token = (false, l) := by
  simp [release, h, hne]

end Lock

/-- The tokens of the guards on a path. -/
def tokensOn (p : Path) (gs : List Guard) : List Nat := (gs.filter (·.path = p)).map Guard.token

theorem tokensOn_cons (p : Path) (g : Guard) (gs : List Guard) :
    tokensOn p (g :: gs) = if g.path = p then g.token :: tokensOn p gs else tokensOn p gs := by
  by_cases h : g.path = p <;> simp [tokensOn, h]

theorem mem_tokensOn_iff {p : Path} {token : Nat} {gs : List Guard} :
    token ∈ tokensOn p gs ↔ ∃ g ∈ gs, g.path = p ∧ g.token = token := by
  simp [tokensOn, and_assoc]

theorem tokensOn_ne_nil_iff {p : Path} {gs : List Guard} : tokensOn p gs ≠ [] ↔ ∃ g ∈ gs, g.path = p := by
  simp [tokensOn, List.filter_eq_nil_iff]

/-- A lock and its count of guards as they are when these are the tokens of the guards: only the latest token can
hold, and its guard is still there. -/
structure LockEntry.Fits (tokens : List Nat) (e : LockEntry) : Prop where
  guards : e.guards = tokens.length
  distinct : tokens.Nodup
  issued : ∀ token ∈ tokens, token ≤ e.lock.issued
  holder : ∀ t, e.lock.holder = some t → t.token = e.lock.issued ∧ t.token ∈ tokens

namespace LockEntry.Fits

variable {tokens : List Nat} {e : LockEntry}

theorem perm (h : e.Fits tokens) {tokens' : List Nat} (hperm : tokens.Perm tokens') : e.Fits tokens' where
  guards := h.guards.trans hperm.length_eq
  distinct := hperm.nodup_iff.mp h.distinct
  issued := fun token htoken => h.issued token (hperm.mem_iff.mpr htoken)
  holder := fun t ht => ⟨(h.holder t ht).1, hperm.mem_iff.mp (h.holder t ht).2⟩

theorem grant (h : e.Fits tokens) (now : Nat) :
    (⟨(e.lock.grant now).2, e.guards + 1⟩ : LockEntry).Fits ((e.lock.grant now).1 :: tokens) where
  guards := by rw [List.length_cons, h.guards]
  distinct := by
    refine List.nodup_cons.mpr ⟨fun hmem => ?_, h.distinct⟩
    have hle : e.lock.issued + 1 ≤ e.lock.issued := h.issued _ hmem
    omega
  issued := by
    intro token htoken
    rcases List.mem_cons.mp htoken with rfl | htoken
    · exact Nat.le_refl _
    · exact Nat.le_succ_of_le (h.issued token htoken)
  holder := by
    intro t ht
    cases ht
    exact ⟨rfl, List.mem_cons_self⟩

theorem release {token : Nat} (h : e.Fits (token :: tokens)) :
    (⟨(e.lock.release token).2, e.guards - 1⟩ : LockEntry).Fits tokens where
  guards := by rw [h.guards, List.length_cons, Nat.add_sub_cancel]
  distinct := (List.nodup_cons.mp h.distinct).2
  issued := by
    intro other hother
    rw [Lock.issued_release]
    exact h.issued other (List.mem_cons_of_mem _ hother)
  holder := by
    intro t ht
    rw [Lock.holder_release, Option.filter_eq_some_iff, bne_iff_ne] at ht
    obtain ⟨ht, hne⟩ := ht
    have hholder := h.holder t ht
    rw [Lock.issued_release]
    exact ⟨hholder.1, (List.mem_cons.mp hholder.2).resolve_left hne⟩

end LockEntry.Fits

namespace LockRegistry

/-- The registry as it is when these are the guards that callers have: it has the lock of a path just as long as
there are guards on it. -/
structure Consistent (r : LockRegistry) (gs : List Guard) : Prop where
  fits : ∀ p, (r.entry p).Fits (tokensOn p gs)
  tracked : ∀ p, r.entries.contains p = true ↔ tokensOn p gs ≠ []

variable {r r' : LockRegistry} {gs : List Guard} {g : Guard} {now later : Nat} {p q : Path} {kind : LockKind}

theorem consistent_empty (lease : Option Nat) : (empty lease).Consistent [] where
  fits := fun _ => ⟨rfl, .nil, nofun, nofun⟩
  tracked := fun _ => ⟨nofun, fun h => absurd rfl h⟩

theorem Consistent.perm (h : r.Consistent gs) {gs' : List Guard} (hperm : gs.Perm gs') : r.Consistent gs' := by
  have htokens : ∀ p, (tokensOn p gs).Perm (tokensOn p gs') := fun p => (hperm.filter _).map _
  refine ⟨fun p => (h.fits p).perm (htokens p), fun p => (h.tracked p).trans ?_⟩
  rw [ne_eq, ne_eq, ← List.length_eq_zero_iff, ← List.length_eq_zero_iff, (htokens p).length_eq]

/-! ## Entries after a change -/

theorem entry_set (e : LockEntry) : (r.set p e).entry q = if q = p then e else r.entry q := by
  rw [entry, set, OrderedMap.find?_insert]
  split <;> rfl

theorem contains_set (e : LockEntry) :
    (r.set p e).entries.contains q = true ↔ q = p ∨ r.entries.contains q = true := by
  rw [OrderedMap.contains, set, OrderedMap.find?_insert]
  by_cases hq : q = p <;> simp [hq, OrderedMap.contains]

theorem entry_of_find? {e : LockEntry} (h : r.entries.find? p = some e) : r.entry p = e := by
  rw [entry, h]
  rfl

theorem ext_find? (hlease : r.lease = r'.lease) (h : ∀ p, r.entries.find? p = r'.entries.find? p) : r = r' := by
  have hentries : r.entries = r'.entries := OrderedMap.ext_find? h
  cases r
  cases r'
  cases hlease
  cases hentries
  rfl

theorem set_entry (h : r.entries.contains p = true) : r.set p (r.entry p) = r := by
  obtain ⟨e, he⟩ := (OrderedMap.contains_iff _ _).mp h
  refine ext_find? rfl fun q => ?_
  rw [entry_of_find? he, set, OrderedMap.find?_insert]
  split
  · rename_i hq
    rw [hq, he]
  · rfl

/-! ## Taking a lock -/

theorem tryAcquire_of_free (h : (r.entry p).lock.isHeld r.lease now = false) :
    r.tryAcquire now p kind =
      (some ⟨p, kind, ((r.entry p).lock.grant now).1⟩,
        r.set p ⟨((r.entry p).lock.grant now).2, (r.entry p).guards + 1⟩) := by
  simp [tryAcquire, Lock.tryAcquire, h, enter]

theorem Consistent.contains_of_holder (h : r.Consistent gs) {t : Tenure} (ht : (r.entry p).lock.holder = some t) :
    r.entries.contains p = true ∧ 0 < (r.entry p).guards := by
  have hmem := ((h.fits p).holder t ht).2
  refine ⟨(h.tracked p).mpr (List.ne_nil_of_mem hmem), ?_⟩
  rw [(h.fits p).guards]
  exact List.length_pos_of_mem hmem

/-- A refusal leaves no trace. -/
theorem Consistent.tryAcquire_of_held (h : r.Consistent gs) (hheld : (r.entry p).lock.isHeld r.lease now = true) :
    r.tryAcquire now p kind = (none, r) := by
  obtain ⟨t, ht, _⟩ := Lock.isHeld_iff.mp hheld
  obtain ⟨hcontains, hguards⟩ := h.contains_of_holder ht
  have hrefused : (r.entry p).lock.tryAcquire r.lease now = none := Lock.tryAcquire_eq_none_iff.mpr hheld
  simp only [tryAcquire, hrefused, set_entry hcontains]
  simp [prune, Nat.ne_of_gt hguards]

/-- Waiting for a lock is letting time pass, and then taking the lock if it is free. -/
theorem acquire_cases (r : LockRegistry) (now timeout : Nat) (p : Path) (kind : LockKind) :
    (∃ later g r', now ≤ later ∧ r.tryAcquire later p kind = (some g, r') ∧
      r.acquire now timeout p kind = (.ok g, r', later)) ∨
    ∃ later r', now ≤ later ∧ r.tryAcquire later p kind = (none, r') ∧
      r.acquire now timeout p kind = (.error (.overflow p.text (later - now)), r', later) := by
  unfold acquire Lock.acquire
  cases hopen : (r.entry p).lock.openAt? r.lease now timeout with
  | some moment =>
    obtain ⟨hle, hfree⟩ := Lock.isHeld_of_openAt? hopen
    exact .inl ⟨moment, _, _, hle, tryAcquire_of_free hfree, rfl⟩
  | none =>
    have hheld := Lock.isHeld_of_openAt?_eq_none hopen
    have hrefused : (r.entry p).lock.tryAcquire r.lease (now + min timeout Lock.waitMax) = none :=
      Lock.tryAcquire_eq_none_iff.mpr hheld
    refine .inr ⟨now + min timeout Lock.waitMax, _, Nat.le_add_right _ _, ?_, rfl⟩
    simp only [tryAcquire, hrefused]

/-- What it takes to get a lock, and what is different then. -/
theorem of_tryAcquire (h : r.tryAcquire now p kind = (some g, r')) :
    (r.entry p).lock.isHeld r.lease now = false ∧ g = ⟨p, kind, (r.entry p).lock.issued + 1⟩ ∧
      r' = r.set p ⟨((r.entry p).lock.grant now).2, (r.entry p).guards + 1⟩ := by
  cases hheld : (r.entry p).lock.isHeld r.lease now with
  | false =>
    rw [tryAcquire_of_free hheld] at h
    cases h
    exact ⟨rfl, rfl, rfl⟩
  | true =>
    have hrefused : (r.entry p).lock.tryAcquire r.lease now = none := Lock.tryAcquire_eq_none_iff.mpr hheld
    simp [tryAcquire, hrefused] at h

theorem Consistent.tryAcquire (h : r.Consistent gs) (htaken : r.tryAcquire now p kind = (some g, r')) :
    r'.Consistent (g :: gs) := by
  obtain ⟨_, rfl, rfl⟩ := of_tryAcquire htaken
  constructor
  · intro q
    rw [entry_set, tokensOn_cons]
    by_cases hq : q = p
    · subst hq
      rw [if_pos rfl, if_pos rfl]
      exact (h.fits q).grant now
    · rw [if_neg hq, if_neg fun hp => hq hp.symm]
      exact h.fits q
  · intro q
    rw [contains_set, h.tracked, tokensOn_cons]
    by_cases hq : q = p
    · simp [hq]
    · rw [if_neg fun hp => hq hp.symm]
      exact or_iff_right hq

theorem Consistent.of_refused (h : r.Consistent gs) (hrefused : r.tryAcquire now p kind = (none, r')) :
    (r.entry p).lock.isHeld r.lease now = true ∧ r' = r := by
  cases hheld : (r.entry p).lock.isHeld r.lease now with
  | true =>
    rw [h.tryAcquire_of_held hheld] at hrefused
    exact ⟨rfl, (Prod.mk.inj hrefused).2.symm⟩
  | false =>
    rw [tryAcquire_of_free hheld] at hrefused
    cases (Prod.mk.inj hrefused).1

/-! ## Giving up a guard -/

theorem lease_prune : (r.prune now p).lease = r.lease := by
  unfold prune
  simp only
  split <;> rfl

theorem find?_prune_set (e : LockEntry) : ((r.set p e).prune now p).entries.find? q =
    if q = p then if e.guards = 0 ∧ e.lock.isHeld r.lease now = false then none else some e
    else r.entries.find? q := by
  have hentry : (r.set p e).entry p = e := by rw [entry_set, if_pos rfl]
  have hcondition : (decide (e.guards = 0) && !e.lock.isHeld r.lease now) = true ↔
      e.guards = 0 ∧ e.lock.isHeld r.lease now = false := by simp
  simp only [prune, hentry, hcondition, show (r.set p e).lease = r.lease from rfl]
  split
  · simp only [set, OrderedMap.find?_erase, OrderedMap.find?_insert]
    split <;> rfl
  · simp only [set, OrderedMap.find?_insert]

/-- The lock goes with the last guard on it. -/
theorem Consistent.find?_release (h : r.Consistent (g :: gs)) (now : Nat) (q : Path) :
    (r.release now g).2.entries.find? q =
      if q = g.path then
        if tokensOn g.path gs = [] then none
        else some ⟨((r.entry g.path).lock.release g.token).2, (r.entry g.path).guards - 1⟩
      else r.entries.find? q := by
  have hfits := h.fits g.path
  rw [tokensOn_cons, if_pos rfl] at hfits
  have hleft := hfits.release
  -- without guards nobody holds the lock
  have hgone : tokensOn g.path gs = [] ↔ (r.entry g.path).guards - 1 = 0 ∧
      ((r.entry g.path).lock.release g.token).2.isHeld r.lease now = false := by
    constructor
    · intro hnone
      refine ⟨by simpa [hnone] using hleft.guards, ?_⟩
      cases hholder : ((r.entry g.path).lock.release g.token).2.holder with
      | none => simp [Lock.isHeld, hholder]
      | some t => simpa [hnone] using (hleft.holder t hholder).2
    · rintro ⟨hguards, _⟩
      exact List.eq_nil_of_length_eq_zero (hleft.guards ▸ hguards)
  simp only [hgone]
  exact find?_prune_set _

theorem Consistent.release (h : r.Consistent (g :: gs)) (now : Nat) : (r.release now g).2.Consistent gs := by
  have hfind := h.find?_release now
  have hfits := h.fits g.path
  rw [tokensOn_cons, if_pos rfl] at hfits
  constructor
  · intro q
    rw [entry, hfind]
    by_cases hq : q = g.path
    · subst hq
      by_cases hnone : tokensOn g.path gs = []
      · rw [if_pos rfl, if_pos hnone, hnone]
        exact ⟨rfl, .nil, nofun, nofun⟩
      · rw [if_pos rfl, if_neg hnone]
        exact hfits.release
    · have hother := h.fits q
      rw [tokensOn_cons, if_neg fun hp => hq hp.symm] at hother
      rw [if_neg hq]
      exact hother
  · intro q
    rw [OrderedMap.contains, hfind]
    by_cases hq : q = g.path
    · subst hq
      by_cases hnone : tokensOn g.path gs = [] <;> simp [hnone]
    · have hother := h.tracked q
      rw [tokensOn_cons, if_neg fun hp => hq hp.symm] at hother
      rw [if_neg hq]
      exact hother

theorem lease_release : (r.release now g).2.lease = r.lease := by
  simp only [release, lease_prune, set]

/-- The lock of a path with guards left loses at most the tenure of the guard that is given up. -/
theorem Consistent.lock_release (h : r.Consistent (g :: gs)) (hleft : ∃ g' ∈ gs, g'.path = q) :
    ((r.release now g).2.entry q).lock =
      if q = g.path then ((r.entry q).lock.release g.token).2 else (r.entry q).lock := by
  rw [entry, h.find?_release]
  by_cases hq : q = g.path
  · subst hq
    rw [if_pos rfl, if_neg (tokensOn_ne_nil_iff.mpr hleft), if_pos rfl]
    rfl
  · rw [if_neg hq, if_neg hq]
    rfl

/-! ## Who holds a lock after a change -/

theorem holder_of_tryAcquire (htaken : r.tryAcquire now p kind = (some g, r')) {t : Tenure}
    (ht : (r'.entry q).lock.holder = some t) :
    (g.path = q ∧ g.token = t.token) ∨ (r.entry q).lock.holder = some t := by
  obtain ⟨_, rfl, rfl⟩ := of_tryAcquire htaken
  rw [entry_set] at ht
  split at ht
  · rename_i hq
    cases ht
    exact .inl ⟨hq.symm, rfl⟩
  · exact .inr ht

theorem Consistent.holder_of_release (h : r.Consistent (g :: gs)) {t : Tenure}
    (ht : ((r.release now g).2.entry q).lock.holder = some t) :
    (r.entry q).lock.holder = some t ∧ ¬ (g.path = q ∧ g.token = t.token) := by
  obtain ⟨g', hg', hpath, _⟩ := mem_tokensOn_iff.mp (((h.release now).fits q).holder t ht).2
  rw [h.lock_release ⟨g', hg', hpath⟩] at ht
  split at ht
  · rw [Lock.holder_release, Option.filter_eq_some_iff, bne_iff_ne] at ht
    exact ⟨ht.1, fun hown => ht.2 hown.2.symm⟩
  · rename_i hq
    exact ⟨ht, fun hown => hq hown.1.symm⟩

/-! ## The other guards -/

theorem holds_iff : r.holds now g = true ↔
    ∃ t, (r.entry g.path).lock.holder = some t ∧ t.token = g.token ∧ Lock.hasExpired r.lease now t = false :=
  Lock.isHeldBy_iff

theorem holds_mono (h : now ≤ later) (hholds : r.holds later g = true) : r.holds now g = true :=
  Lock.isHeldBy_mono h hholds

theorem Consistent.token_le (h : r.Consistent gs) (hg : g ∈ gs) : g.token ≤ (r.entry g.path).lock.issued :=
  (h.fits g.path).issued g.token (mem_tokensOn_iff.mpr ⟨g, hg, rfl, rfl⟩)

/-- Taking a lock makes no difference to the guards there are: those on the same path had lost it before. -/
theorem Consistent.holds_tryAcquire (h : r.Consistent gs) (htaken : r.tryAcquire now p kind = (some g, r'))
    {g' : Guard} (hg' : g' ∈ gs) (hle : now ≤ later) : r'.holds later g' = r.holds later g' := by
  obtain ⟨hfree, _, rfl⟩ := of_tryAcquire htaken
  by_cases hp : g'.path = p
  · subst hp
    have hbefore : r.holds later g' = false := by
      rw [Bool.eq_false_iff]
      intro hholds
      obtain ⟨t, ht, _, hvalid⟩ := holds_iff.mp (holds_mono hle hholds)
      rw [Lock.isHeld_iff.mpr ⟨t, ht, hvalid⟩] at hfree
      cases hfree
    have hafter : (r.set g'.path ⟨((r.entry g'.path).lock.grant now).2, (r.entry g'.path).guards + 1⟩).holds
        later g' = false := by
      rw [Bool.eq_false_iff]
      intro hholds
      obtain ⟨t, ht, htoken, _⟩ := holds_iff.mp hholds
      rw [entry_set, if_pos rfl] at ht
      cases ht
      have hle := h.token_le hg'
      simp only at htoken
      omega
    rw [hbefore, hafter]
  · have hentry : (r.set p ⟨((r.entry p).lock.grant now).2, (r.entry p).guards + 1⟩).entry g'.path =
        r.entry g'.path := by rw [entry_set, if_neg hp]
    simp only [holds, hentry]
    rfl

/-- Giving up a guard makes no difference to the others. -/
theorem Consistent.holds_release (h : r.Consistent (g :: gs)) {g' : Guard} (hg' : g' ∈ gs) (now later : Nat) :
    (r.release now g).2.holds later g' = r.holds later g' := by
  have hdistinct := (h.fits g.path).distinct
  rw [tokensOn_cons, if_pos rfl, List.nodup_cons] at hdistinct
  rw [holds, h.lock_release ⟨g', hg', rfl⟩, lease_release, holds]
  split
  · rename_i hpath
    have hne : g'.token ≠ g.token := fun heq => hdistinct.1 (heq ▸ mem_tokensOn_iff.mpr ⟨g', hg', hpath, rfl⟩)
    rw [Bool.eq_iff_iff, Lock.isHeldBy_iff, Lock.isHeldBy_iff]
    refine exists_congr fun t => ?_
    rw [Lock.holder_release, Option.filter_eq_some_iff, bne_iff_ne]
    refine ⟨fun ⟨⟨ht, _⟩, hrest⟩ => ⟨ht, hrest⟩, fun ⟨ht, htoken, hvalid⟩ => ⟨⟨ht, ?_⟩, htoken, hvalid⟩⟩
    rwa [htoken]
  · rfl

theorem Consistent.pairwise (h : r.Consistent gs) :
    gs.Pairwise fun a b => a.path = b.path → a.token ≠ b.token := by
  have hdistinct := fun p => (h.fits p).distinct
  clear h
  induction gs with
  | nil => exact .nil
  | cons g gs ih =>
    refine List.pairwise_cons.mpr ⟨fun b hb hpath heq => ?_, ih fun p => ?_⟩
    · have hg := hdistinct g.path
      rw [tokensOn_cons, if_pos rfl, List.nodup_cons] at hg
      exact hg.1 (mem_tokensOn_iff.mpr ⟨b, hb, hpath.symm, heq.symm⟩)
    · have hp := hdistinct p
      rw [tokensOn_cons] at hp
      split at hp
      · exact (List.nodup_cons.mp hp).2
      · exact hp

end LockRegistry

end EntityStore
