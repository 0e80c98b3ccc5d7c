import EntityStore.Proofs.Lock.Consistent

/-!
# The tokens of one lock

Callers take a lock, give it up and ask about it, in any order, with any time between and with any tokens. Only three
things can come of a call: nothing, a grant of the next token, or the end of the tenure there is. What these preserve
holds in every history. Main statement: `fenced_run`.
-/
namespace EntityStore

/-- What a caller can ask of a lock. -/
inductive LockCall where
  | acquire (timeout : Nat)
  | tryAcquire
  | release (token : Nat)
  | isHeldBy (token : Nat)
  | isHeld
  deriving DecidableEq, Repr

/-- What a lock answers. -/
inductive LockAnswer where
  | granted (token : Nat)
  | refused
  | released (done : Bool)
  | held (answer : Bool)
  deriving DecidableEq, Repr

namespace Lock

/-- The answer to a call, the lock after it, and the time of the answer. -/
def answer (lease : Option Nat) (now : Nat) (l : Lock) : LockCall → LockAnswer × Lock × Nat
  | .acquire timeout =>
    match l.acquire lease now timeout with
    | (some (token, l'), later) => (.granted token, l', later)
    | (none, later) => (.refused, l, later)
  | .tryAcquire =>
    match l.tryAcquire lease now with
    | some (token, l') => (.granted token, l', now)
    | none => (.refused, l, now)
  | .release token => (.released (l.release token).1, (l.release token).2, now)
  | .isHeldBy token => (.held (l.isHeldBy lease now token), l, now)
  | .isHeld => (.held (l.isHeld lease now), l, now)

/-- The three things that can come of a call. -/
inductive Reacts (lease : Option Nat) (now : Nat) (l : Lock) : LockCall → LockAnswer × Lock × Nat → Prop where
  | kept {call answer later} (time : now ≤ later) (ungranted : ∀ token, answer ≠ .granted token)
    (unreleased : answer ≠ .released true) : Reacts lease now l call (answer, l, later)
  | granted {call later} (time : now ≤ later) (free : l.isHeld lease later = false) :
    Reacts lease now l call (.granted (l.issued + 1), ⟨some ⟨l.issued + 1, later⟩, l.issued + 1⟩, later)
  | released {t} (holder : l.holder = some t) :
    Reacts lease now l (.release t.token) (.released true, ⟨none, l.issued⟩, now)

variable {lease : Option Nat} {now later instant token : Nat} {l l' : Lock} {call : LockCall} {a : LockAnswer}

theorem reacts_answer (lease : Option Nat) (now : Nat) (l : Lock) (call : LockCall) :
    Reacts lease now l call (l.answer lease now call) := by
  cases call with
  | acquire timeout =>
    simp only [answer, acquire]
    cases hopen : l.openAt? lease now timeout with
    | some moment =>
      obtain ⟨htime, hfree⟩ := isHeld_of_openAt? hopen
      exact .granted htime hfree
    | none => exact .kept (Nat.le_add_right _ _) (by simp) (by simp)
  | tryAcquire =>
    simp only [answer, tryAcquire]
    cases hheld : l.isHeld lease now with
    | false => exact .granted (Nat.le_refl _) hheld
    | true => exact .kept (Nat.le_refl _) (by simp) (by simp)
  | release token =>
    simp only [answer, release]
    cases hholder : l.holder with
    | none => exact .kept (Nat.le_refl _) (by simp) (by simp)
    | some t =>
      by_cases htoken : t.token = token
      · subst htoken
        simpa using Reacts.released hholder
      · simpa [htoken] using Reacts.kept (Nat.le_refl _) (by simp) (by simp)
  | isHeldBy token => exact .kept (Nat.le_refl _) (by simp) (by simp)
  | isHeld => exact .kept (Nat.le_refl _) (by simp) (by simp)

/-- A lock that is not held has no tenure, or one as old as the lease. -/
theorem of_not_isHeld (h : l.isHeld lease now = false) :
    l.holder = none ∨ ∃ t length, l.holder = some t ∧ lease = some length ∧ length ≤ now - t.since := by
  cases hholder : l.holder with
  | none => simp
  | some t =>
    cases lease with
    | none => simp [isHeld, hholder, hasExpired] at h
    | some length => simpa [isHeld, hholder, hasExpired] using h

end Lock

/-- A lock at a moment, the tokens it has granted, and those whose release it has confirmed, latest first. -/
structure LockHistory where
  lock : Lock
  now : Nat
  granted : List Nat
  released : List Nat

namespace LockHistory

def start (now : Nat) : LockHistory := ⟨.free, now, [], []⟩

/-- Some time passes, and then there is a call. -/
def answer (lease : Option Nat) (h : LockHistory) (call : Nat × LockCall) : LockAnswer × Lock × Nat :=
  h.lock.answer lease (h.now + call.1) call.2

/-- Adds a token to those that were granted, or to those whose release was confirmed. -/
def note (h : LockHistory) (lock : Lock) (now : Nat) : LockCall → LockAnswer → LockHistory
  | _, .granted token => ⟨lock, now, token :: h.granted, h.released⟩
  | .release token, .released true => ⟨lock, now, h.granted, token :: h.released⟩
  | _, _ => ⟨lock, now, h.granted, h.released⟩

def step (lease : Option Nat) (h : LockHistory) (call : Nat × LockCall) : LockHistory :=
  let (answer, lock, now) := h.answer lease call
  h.note lock now call.2 answer

def run (lease : Option Nat) (h : LockHistory) (calls : List (Nat × LockCall)) : LockHistory :=
  calls.foldl (step lease) h

/-- The latest token is the one that the lock has issued, and holds the lock until its release is confirmed. -/
structure Sound (h : LockHistory) : Prop where
  increasing : h.granted.Pairwise (· > ·)
  latest : h.granted.headD 0 = h.lock.issued
  once : h.released.Nodup
  known : ∀ token ∈ h.released, token ∈ h.granted
  holder : ∀ token, (∃ t, h.lock.holder = some t ∧ t.token = token) ↔
    h.granted.head? = some token ∧ token ∉ h.released
  since : ∀ t, h.lock.holder = some t → t.since ≤ h.now

variable {lease : Option Nat} {h : LockHistory} {token : Nat}

theorem sound_start (now : Nat) : (start now).Sound := by
  constructor <;> simp [start, Lock.free]

theorem Sound.le_issued (hsound : h.Sound) (htoken : token ∈ h.granted) : token ≤ h.lock.issued := by
  have hincreasing := hsound.increasing
  have hlatest := hsound.latest
  cases hgranted : h.granted with
  | nil => simp [hgranted] at htoken
  | cons first rest =>
    simp only [hgranted, List.pairwise_cons, List.mem_cons, List.headD_cons] at hincreasing hlatest htoken
    rcases htoken with rfl | hrest
    · omega
    · have := hincreasing.1 token hrest
      omega

theorem note_eq {lock : Lock} {now : Nat} {call : LockCall} {answer : LockAnswer}
    (hungranted : ∀ token, answer ≠ .granted token) (hunreleased : answer ≠ .released true) :
    h.note lock now call answer = { h with lock, now } := by
  unfold note
  split
  · exact absurd rfl (hungranted _)
  · exact absurd rfl hunreleased
  · rfl

theorem lock_step (lease : Option Nat) (h : LockHistory) (call : Nat × LockCall) :
    (h.step lease call).lock = (h.answer lease call).2.1 := by
  simp only [step, note]
  split <;> rfl

theorem now_step (lease : Option Nat) (h : LockHistory) (call : Nat × LockCall) :
    (h.step lease call).now = (h.answer lease call).2.2 := by
  simp only [step, note]
  split <;> rfl

/-- The three things that can come of a step. -/
theorem step_cases (lease : Option Nat) (h : LockHistory) (call : Nat × LockCall) :
    ∃ later, h.now ≤ later ∧
      (h.step lease call = { h with now := later } ∨
      (h.lock.isHeld lease later = false ∧ h.step lease call =
        ⟨⟨some ⟨h.lock.issued + 1, later⟩, h.lock.issued + 1⟩, later, (h.lock.issued + 1) :: h.granted, h.released⟩) ∨
      ∃ t, h.lock.holder = some t ∧
        h.step lease call = ⟨⟨none, h.lock.issued⟩, later, h.granted, t.token :: h.released⟩) := by
  obtain ⟨pause, call⟩ := call
  have hreacts := Lock.reacts_answer lease (h.now + pause) h.lock call
  simp only [step, answer]
  generalize h.lock.answer lease (h.now + pause) call = result at hreacts
  cases hreacts with
  | @kept call answer later htime hungranted hunreleased =>
    exact ⟨later, by omega, .inl (note_eq hungranted hunreleased)⟩
  | @granted call later htime hfree => exact ⟨later, by omega, .inr (.inl ⟨hfree, rfl⟩)⟩
  | @released t hholder => exact ⟨h.now + pause, by omega, .inr (.inr ⟨t, hholder, rfl⟩)⟩

theorem Sound.step (hsound : h.Sound) (call : Nat × LockCall) : (h.step lease call).Sound := by
  obtain ⟨later, htime, heq | ⟨_, heq⟩ | ⟨t, hholder, heq⟩⟩ := step_cases lease h call
  · rw [heq]
    exact { hsound with since := fun t ht => Nat.le_trans (hsound.since t ht) htime }
  · have hnew : h.lock.issued + 1 ∉ h.released := by
      intro hmem
      have := hsound.le_issued (hsound.known _ hmem)
      omega
    rw [heq]
    constructor
    · apply List.pairwise_cons.mpr
      exact ⟨fun token htoken => Nat.lt_succ_of_le (hsound.le_issued htoken), hsound.increasing⟩
    · simp
    · exact hsound.once
    · exact fun token htoken => List.mem_cons_of_mem _ (hsound.known token htoken)
    · intro token
      simp only [Option.some.injEq, exists_eq_left', List.head?_cons]
      constructor
      · rintro rfl
        exact ⟨rfl, hnew⟩
      · exact fun htoken => htoken.1
    · simp
  · obtain ⟨hlatest, hunreleased⟩ := (hsound.holder t.token).mp ⟨t, hholder, rfl⟩
    rw [heq]
    constructor
    · exact hsound.increasing
    · exact hsound.latest
    · exact List.nodup_cons.mpr ⟨hunreleased, hsound.once⟩
    · exact List.forall_mem_cons.mpr ⟨List.mem_of_mem_head? hlatest, hsound.known⟩
    · intro token
      -- the latest token is just the one that is released
      simp only [hlatest, Option.some.injEq, List.mem_cons, not_or]
      constructor
      · rintro ⟨_, hnone, _⟩
        cases hnone
      · rintro ⟨rfl, hne, _⟩
        exact absurd rfl hne
    · simp

theorem Sound.run (hsound : h.Sound) (calls : List (Nat × LockCall)) : (h.run lease calls).Sound := by
  induction calls generalizing h with
  | nil => exact hsound
  | cons call rest ih => exact ih (hsound.step call)

/-! ## Tokens that no longer hold -/

/-- No step gives the lock back to a token that was granted before. -/
theorem Sound.isHeldBy_of_step (hsound : h.Sound) {instant : Nat} {call : Nat × LockCall} (htoken : token ∈ h.granted)
    (hheld : (h.step lease call).lock.isHeldBy lease instant token = true) :
    h.lock.isHeldBy lease instant token = true := by
  obtain ⟨later, _, heq | ⟨_, heq⟩ | ⟨t, _, heq⟩⟩ := step_cases lease h call
  · rwa [heq] at hheld
  · rw [heq] at hheld
    have hle := hsound.le_issued htoken
    simp only [Lock.isHeldBy, Option.any_some, Bool.and_eq_true, beq_iff_eq] at hheld
    omega
  · simp [heq, Lock.isHeldBy] at hheld

theorem granted_step (lease : Option Nat) (call : Nat × LockCall) (htoken : token ∈ h.granted) :
    token ∈ (h.step lease call).granted := by
  obtain ⟨later, _, heq | ⟨_, heq⟩ | ⟨t, _, heq⟩⟩ := step_cases lease h call <;> simp [heq, htoken]

theorem Sound.isHeldBy_of_run (hsound : h.Sound) {instant : Nat} {calls : List (Nat × LockCall)}
    (htoken : token ∈ h.granted) (hheld : (h.run lease calls).lock.isHeldBy lease instant token = true) :
    h.lock.isHeldBy lease instant token = true := by
  induction calls generalizing h with
  | nil => exact hheld
  | cons call rest ih =>
    exact hsound.isHeldBy_of_step htoken (ih (hsound.step call) (granted_step lease call htoken) hheld)

/-! ## Answers -/

/-- A new token is greater than all before it, and takes over no tenure that is younger than the lease. -/
theorem Sound.of_granted (hsound : h.Sound) {call : Nat × LockCall}
    (hgranted : (h.answer lease call).1 = .granted token) :
    (∀ earlier ∈ h.granted, earlier < token) ∧
      (h.lock.holder = none ∨ ∃ t length, h.lock.holder = some t ∧ lease = some length ∧
        t.since + length ≤ (h.step lease call).now) := by
  obtain ⟨pause, call⟩ := call
  have hreacts := Lock.reacts_answer lease (h.now + pause) h.lock call
  rw [now_step]
  simp only [answer] at hgranted ⊢
  generalize h.lock.answer lease (h.now + pause) call = result at hreacts hgranted
  cases hreacts with
  | kept _ hungranted => exact absurd hgranted (hungranted token)
  | @granted _ later htime hfree =>
    simp only [LockAnswer.granted.injEq] at hgranted
    subst hgranted
    constructor
    · exact fun earlier hearlier => Nat.lt_succ_of_le (hsound.le_issued hearlier)
    · rcases Lock.of_not_isHeld hfree with hnone | ⟨t, length, ht, hlease, hage⟩
      · exact .inl hnone
      · have := hsound.since t ht
        exact .inr ⟨t, length, ht, hlease, by simp only; omega⟩
  | released => simp at hgranted

/-- A release is confirmed just for the latest token, and once. -/
theorem Sound.released_iff (hsound : h.Sound) (pause : Nat) :
    (h.answer lease (pause, .release token)).1 = .released true ↔ h.granted.head? = some token ∧ token ∉ h.released := by
  rw [← hsound.holder, ← Lock.release_fst_eq_true_iff]
  simp [answer, Lock.answer]

theorem lock_step_of_refused {call : Nat × LockCall}
    (hrefused : (h.answer lease call).1 = .refused ∨ (h.answer lease call).1 = .released false) :
    (h.step lease call).lock = h.lock := by
  obtain ⟨pause, call⟩ := call
  have hreacts := Lock.reacts_answer lease (h.now + pause) h.lock call
  rw [lock_step]
  simp only [answer] at hrefused ⊢
  generalize h.lock.answer lease (h.now + pause) call = result at hreacts hrefused
  cases hreacts with
  | kept => rfl
  | granted => simp at hrefused
  | released => simp at hrefused

/-! ## All histories -/

/-- In every history of a lock the tokens increase, and one is granted only when nobody holds the lock or by taking over
a tenure as old as the lease. At any instant at most one token holds the lock, and one that was granted and does not
hold it never does again. A release is confirmed for the latest token and only once; any other and a refusal leave the
lock as it is. -/
theorem fenced_run (lease : Option Nat) (now : Nat) (calls : List (Nat × LockCall)) :
    let h := (start now).run lease calls
    (h.granted.Pairwise fun token earlier => earlier < token) ∧
    (∀ call token, (h.answer lease call).1 = .granted token →
      (∀ earlier ∈ h.granted, earlier < token) ∧
      (h.lock.holder = none ∨ ∃ t length, h.lock.holder = some t ∧ lease = some length ∧
        t.since + length ≤ (h.step lease call).now)) ∧
    (∀ instant a b, h.lock.isHeldBy lease instant a = true → h.lock.isHeldBy lease instant b = true → a = b) ∧
    (∀ token ∈ h.granted, ∀ instant, h.lock.isHeldBy lease instant token = false → ∀ more later, instant ≤ later →
      (h.run lease more).lock.isHeldBy lease later token = false) ∧
    (∀ pause token, (h.answer lease (pause, .release token)).1 = .released true ↔
      h.granted.head? = some token ∧ token ∉ h.released) ∧
    h.released.Nodup ∧
    ∀ call, (h.answer lease call).1 = .refused ∨ (h.answer lease call).1 = .released false →
      (h.step lease call).lock = h.lock := by
  intro h
  have hsound : h.Sound := (sound_start now).run calls
  refine ⟨hsound.increasing, fun call token => hsound.of_granted, fun instant a b ha hb => ?_,
    fun token htoken instant hlost more later hle => ?_, fun pause token => hsound.released_iff pause, hsound.once,
    fun call => lock_step_of_refused⟩
  · obtain ⟨t, ht, rfl, _⟩ := Lock.isHeldBy_iff.mp ha
    obtain ⟨t', ht', rfl, _⟩ := Lock.isHeldBy_iff.mp hb
    simp only [ht, Option.some.injEq] at ht'
    rw [ht']
  · rw [Bool.eq_false_iff] at hlost ⊢
    intro hheld
    exact hlost (Lock.isHeldBy_mono hle (hsound.isHeldBy_of_run htoken hheld))

/-- A tenure is taken over when the lease is over; the one after it is given up later than that, by its own token. -/
example :
    let h := (start 0).run (some 10) [(0, .tryAcquire), (4, .acquire 6), (3, .release 1), (20, .release 2)]
    h.granted = [2, 1] ∧ h.released = [2] ∧ h.now = 33 := by
  decide

end LockHistory

end EntityStore
