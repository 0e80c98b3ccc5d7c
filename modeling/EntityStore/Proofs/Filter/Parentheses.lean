import EntityStore.Filter.Token
import Mathlib.Data.List.Basic

/-!
# Parentheses

Which parentheses of a token list have a partner. `Balanced` says it of a whole stretch; a closing parenthesis is
opened, and an opening one closed, if only a balanced stretch lies between the two. Main statements:
`unmatchedClose?_eq_none_iff` and `dropsUnclosed_iff`.
-/
namespace EntityStore.Filter

/-- The tokens without their places. -/
def kinds (ts : List Token) : List TokenKind := ts.map Token.kind

@[simp] theorem kinds_nil : kinds [] = [] := rfl

@[simp] theorem kinds_cons (token : Token) (ts : List Token) : kinds (token :: ts) = token.kind :: kinds ts := rfl

@[simp] theorem kinds_append (ts us : List Token) : kinds (ts ++ us) = kinds ts ++ kinds us :=
  List.map_append

theorem kinds_eq_nil_iff {ts : List Token} : kinds ts = [] ↔ ts = [] := List.map_eq_nil_iff

theorem kinds_eq_cons_iff {ts : List Token} {k : TokenKind} {ks : List TokenKind} :
    kinds ts = k :: ks ↔ ∃ position rest, ts = ⟨k, position⟩ :: rest ∧ kinds rest = ks := by
  constructor
  · intro h
    obtain ⟨⟨kind, position⟩, rest, rfl, rfl, rfl⟩ := List.map_eq_cons_iff.mp h
    exact ⟨position, rest, rfl, rfl⟩
  · rintro ⟨position, rest, rfl, rfl⟩
    rfl

theorem kinds_eq_append_iff {ts : List Token} {ks ks' : List TokenKind} :
    kinds ts = ks ++ ks' ↔ ∃ first rest, ts = first ++ rest ∧ kinds first = ks ∧ kinds rest = ks' :=
  List.map_eq_append_iff

/-- Every parenthesis of the stretch has its partner in it. -/
inductive Balanced : List TokenKind → Prop
  | nil : Balanced []
  | skip {k : TokenKind} {ks : List TokenKind} (notOpen : k ≠ .openParen) (notClose : k ≠ .closeParen)
      (after : Balanced ks) : Balanced (k :: ks)
  | group {inside ks : List TokenKind} (inner : Balanced inside) (after : Balanced ks) :
      Balanced (.openParen :: inside ++ .closeParen :: ks)

/-- What follows an opening parenthesis closes it. -/
def Closes (ks : List TokenKind) : Prop :=
  ∃ inside after, ks = inside ++ .closeParen :: after ∧ Balanced inside

/-- What precedes a closing parenthesis opens it. -/
def Opens (ks : List TokenKind) : Prop :=
  ∃ before inside, ks = before ++ .openParen :: inside ∧ Balanced inside

/-- Every closing parenthesis has its opening one. -/
def AllOpened (ks : List TokenKind) : Prop :=
  ∀ before after, ks = before ++ .closeParen :: after → Opens before

/-- Every opening parenthesis has its closing one. -/
def AllClosed (ks : List TokenKind) : Prop :=
  ∀ before after, ks = before ++ .openParen :: after → Closes after

/-- The second list is the first without the opening parentheses that are never closed. -/
inductive DropsUnclosed : List TokenKind → List TokenKind → Prop
  | nil : DropsUnclosed [] []
  | drop {ks kept : List TokenKind} (unclosed : ¬ Closes ks) (rest : DropsUnclosed ks kept) :
      DropsUnclosed (.openParen :: ks) kept
  | keep {k : TokenKind} {ks kept : List TokenKind} (closed : k = .openParen → Closes ks)
      (rest : DropsUnclosed ks kept) : DropsUnclosed (k :: ks) (k :: kept)

/-! ## Counting -/

/-- The number of closing parentheses that wait for an opening one. -/
def pending : List TokenKind → Nat
  | [] => 0
  | .openParen :: ks => pending ks - 1
  | .closeParen :: ks => pending ks + 1
  | _ :: ks => pending ks

@[simp] theorem pending_nil : pending [] = 0 := rfl

@[simp] theorem pending_open (ks : List TokenKind) : pending (.openParen :: ks) = pending ks - 1 := rfl

@[simp] theorem pending_close (ks : List TokenKind) : pending (.closeParen :: ks) = pending ks + 1 := rfl

theorem pending_other {k : TokenKind} (h : k ≠ .openParen) (h' : k ≠ .closeParen) (ks : List TokenKind) :
    pending (k :: ks) = pending ks := by
  cases k <;> first | contradiction | rfl

theorem pending_append_of_balanced {ks : List TokenKind} (h : Balanced ks) (rest : List TokenKind) :
    pending (ks ++ rest) = pending rest := by
  induction h generalizing rest with
  | nil => rfl
  | skip notOpen notClose _ ih => rw [List.cons_append, pending_other notOpen notClose, ih]
  | group _ _ inner after =>
    simp only [List.cons_append, List.append_assoc, pending_open, inner, pending_close, after]
    omega

theorem pending_append_le (ks rest : List TokenKind) : pending (ks ++ rest) ≤ pending ks + pending rest := by
  induction ks with
  | nil => simp
  | cons k ks ih =>
    by_cases ho : k = .openParen
    · subst ho
      simp only [List.cons_append, pending_open]
      omega
    by_cases hc : k = .closeParen
    · subst hc
      simp only [List.cons_append, pending_close]
      omega
    simpa only [List.cons_append, pending_other ho hc] using ih

theorem pending_le_append (ks rest : List TokenKind) : pending ks ≤ pending (ks ++ rest) := by
  induction ks with
  | nil => simp
  | cons k ks ih =>
    by_cases ho : k = .openParen
    · subst ho
      simp only [List.cons_append, pending_open]
      omega
    by_cases hc : k = .closeParen
    · subst hc
      simp only [List.cons_append, pending_close]
      omega
    simpa only [List.cons_append, pending_other ho hc] using ih

theorem Balanced.append {ks rest : List TokenKind} (h : Balanced ks) (h' : Balanced rest) :
    Balanced (ks ++ rest) := by
  induction h with
  | nil => exact h'
  | skip notOpen notClose _ ih => exact .skip notOpen notClose ih
  | group inner _ _ ih => simpa using Balanced.group inner ih

/-- The first closing parenthesis that waits ends a balanced stretch. -/
theorem closes_of_pending_pos (ks : List TokenKind) (h : 0 < pending ks) : Closes ks := by
  induction hn : ks.length using Nat.strongRecOn generalizing ks with
  | _ n ih =>
    cases ks with
    | nil => simp at h
    | cons k ks =>
      subst hn
      by_cases hc : k = .closeParen
      · exact ⟨[], ks, by simp [hc], .nil⟩
      by_cases ho : k = .openParen
      · subst ho
        -- the stretch closes the parenthesis first, and what is left closes once more
        rw [pending_open] at h
        obtain ⟨inside, after, rfl, hin⟩ := ih _ (by simp) ks (by omega) rfl
        rw [pending_append_of_balanced hin, pending_close] at h
        have hlt : after.length < (TokenKind.openParen :: (inside ++ .closeParen :: after)).length := by
          simp only [List.length_cons, List.length_append]
          omega
        obtain ⟨more, last, rfl, hmore⟩ := ih _ hlt after (by omega) rfl
        exact ⟨.openParen :: inside ++ .closeParen :: more, last, by simp, .group hin hmore⟩
      · rw [pending_other ho hc] at h
        obtain ⟨inside, after, rfl, hin⟩ := ih _ (by simp) ks h rfl
        exact ⟨k :: inside, after, rfl, .skip ho hc hin⟩

theorem closes_iff (ks : List TokenKind) : Closes ks ↔ 0 < pending ks := by
  refine ⟨?_, closes_of_pending_pos ks⟩
  rintro ⟨inside, after, rfl, hin⟩
  rw [pending_append_of_balanced hin, pending_close]
  omega

/-- If nothing waits in the whole, then a closing parenthesis that waits in the second part is opened in the first. -/
theorem opens_of_pending (before after : List TokenKind) (h : pending (before ++ after) = 0)
    (hpos : 0 < pending after) : Opens before := by
  induction hn : before.length using Nat.strongRecOn generalizing before after with
  | _ n ih =>
    rcases before.eq_nil_or_concat' with rfl | ⟨front, k, rfl⟩
    · simp only [List.nil_append] at h
      omega
    subst hn
    rw [List.append_assoc, List.singleton_append] at h
    by_cases ho : k = .openParen
    · exact ⟨front, [], by simp [ho], .nil⟩
    by_cases hc : k = .closeParen
    · subst hc
      obtain ⟨outer, inside, rfl, hin⟩ := ih _ (by simp) front _ h (by simp) rfl
      -- the parenthesis pairs with the last one opened, and the one looked for lies further out
      have hgroup : pending (.openParen :: (inside ++ TokenKind.closeParen :: after)) = pending after := by
        rw [pending_open, pending_append_of_balanced hin, pending_close, Nat.add_sub_cancel]
      have hlen : outer.length < (outer ++ .openParen :: inside ++ [TokenKind.closeParen]).length := by
        simp only [List.length_append, List.length_cons]
        omega
      obtain ⟨first, between, rfl, hbetween⟩ :=
        ih _ hlen outer (.openParen :: (inside ++ TokenKind.closeParen :: after)) (by simpa using h)
          (by omega) rfl
      refine ⟨first, between ++ (TokenKind.openParen :: inside ++ TokenKind.closeParen :: []), by simp, ?_⟩
      exact hbetween.append (.group hin .nil)
    · have hsame := pending_other ho hc after
      obtain ⟨outer, inside, rfl, hin⟩ := ih _ (by simp) front _ h (by omega) rfl
      exact ⟨outer, inside ++ [k], by simp, hin.append (.skip ho hc .nil)⟩

/-- Inside a balanced stretch an opening parenthesis is always followed by its closing one. -/
theorem not_opens_of_balanced {ks : List TokenKind} (h : Balanced ks) : ¬ Opens ks := by
  rintro ⟨before, inside, rfl, hin⟩
  have hall : pending (before ++ TokenKind.openParen :: (inside ++ [TokenKind.closeParen])) = 1 := by
    have := pending_append_of_balanced h [.closeParen]
    simpa using this
  have hnone : pending before = 0 := by
    have hle := pending_le_append before (.openParen :: inside)
    have := pending_append_of_balanced h []
    simp only [List.append_nil, pending_nil] at this
    omega
  have hle := pending_append_le before (.openParen :: (inside ++ [TokenKind.closeParen]))
  have : pending (.openParen :: (inside ++ [TokenKind.closeParen])) = 0 := by
    rw [pending_open, pending_append_of_balanced hin]
    rfl
  omega

theorem allOpened_iff (ks : List TokenKind) : AllOpened ks ↔ pending ks = 0 := by
  constructor
  · intro h
    by_contra hne
    obtain ⟨inside, after, rfl, hin⟩ := closes_of_pending_pos ks (Nat.pos_of_ne_zero hne)
    exact not_opens_of_balanced hin (h inside after rfl)
  · rintro h before after rfl
    exact opens_of_pending before _ h (by simp)

/-- With a partner for each of them, the parentheses are balanced. -/
theorem balanced_of_allClosed {ks : List TokenKind} (hopened : AllOpened ks) (hclosed : AllClosed ks) :
    Balanced ks := by
  rw [allOpened_iff] at hopened
  induction hn : ks.length using Nat.strongRecOn generalizing ks with
  | _ n ih =>
    cases ks with
    | nil => exact .nil
    | cons k ks =>
      subst hn
      by_cases hc : k = .closeParen
      · subst hc
        simp at hopened
      by_cases ho : k = .openParen
      · subst ho
        obtain ⟨inside, after, rfl, hin⟩ := hclosed [] ks rfl
        rw [pending_open, pending_append_of_balanced hin, pending_close, Nat.add_sub_cancel] at hopened
        have hlt : after.length < (TokenKind.openParen :: (inside ++ .closeParen :: after)).length := by
          simp only [List.length_cons, List.length_append]
          omega
        have hafter : AllClosed after := by
          rintro first last rfl
          exact hclosed (.openParen :: (inside ++ .closeParen :: first)) last (by simp)
        exact .group hin (ih _ hlt hopened hafter rfl)
      · rw [pending_other ho hc] at hopened
        have hrest : AllClosed ks := by
          rintro first last rfl
          exact hclosed (k :: first) last rfl
        exact .skip ho hc (ih _ (Nat.lt_succ_self _) hopened hrest rfl)

theorem Closes.append {ks : List TokenKind} (h : Closes ks) (more : List TokenKind) : Closes (ks ++ more) := by
  obtain ⟨inside, after, rfl, hin⟩ := h
  exact ⟨inside, after ++ more, by simp, hin⟩

theorem allClosed_of_balanced {ks : List TokenKind} (h : Balanced ks) : AllClosed ks := by
  induction h with
  | nil =>
    intro before after heq
    simp at heq
  | @skip k ks notOpen _ _ ih =>
    intro before after heq
    rcases List.cons_eq_append_iff.mp heq with ⟨_, hopen⟩ | ⟨before', _, hrest⟩
    · exact absurd (List.cons.inj hopen).1.symm notOpen
    · exact ih before' after hrest
  | @group inside ks inner _ ihinner ihafter =>
    intro before after heq
    rcases List.cons_eq_append_iff.mp heq with ⟨_, hopen⟩ | ⟨before', _, hrest⟩
    · exact ⟨inside, ks, (List.cons.inj hopen).2, inner⟩
    · rcases List.append_eq_append_iff.mp hrest with ⟨between, _, hbetween⟩ | ⟨between, hinside, hbetween⟩
      · -- the opening parenthesis comes after the group
        rcases List.cons_eq_append_iff.mp hbetween with ⟨_, hclose⟩ | ⟨before'', _, hafter⟩
        · cases hclose
        · exact ihafter before'' after hafter
      · -- it comes inside, unless it is the closing one
        rcases List.cons_eq_append_iff.mp hbetween with ⟨_, hclose⟩ | ⟨rest, hrest, hafter⟩
        · cases hclose
        · rw [hafter]
          exact (ihinner before' rest (by rw [hinside, hrest])).append _

/-- A stretch is balanced when each parenthesis in it, of either kind, has its partner. -/
theorem balanced_iff {ks : List TokenKind} : Balanced ks ↔ AllOpened ks ∧ AllClosed ks := by
  refine ⟨fun h => ⟨?_, allClosed_of_balanced h⟩, fun h => balanced_of_allClosed h.1 h.2⟩
  rw [allOpened_iff]
  simpa using pending_append_of_balanced h []

/-! ## The passes over a token list -/

theorem unmatchedClose?_eq_none (n : Nat) (ts : List Token) :
    unmatchedClose? n ts = none ↔ pending (kinds ts) ≤ n := by
  fun_induction unmatchedClose? n ts with
  | case1 => simp
  | case2 n rest _ ih => simp only [ih, kinds_cons, pending_open]; omega
  | case3 rest position => simp
  | case4 rest position n ih => simp only [ih, kinds_cons, pending_close]; omega
  | case5 n token rest hopen hclose ih =>
    obtain ⟨kind, position⟩ := token
    rw [ih, kinds_cons, pending_other]
    · rintro rfl; exact hopen position rfl
    · rintro rfl; exact hclose position rfl

theorem unmatchedClose?_eq_none_iff (ts : List Token) :
    unmatchedClose? 0 ts = none ↔ AllOpened (kinds ts) := by
  rw [unmatchedClose?_eq_none, allOpened_iff, Nat.le_zero]

theorem keepClosed_other {token : Token} (h : token.kind ≠ .openParen) (h' : token.kind ≠ .closeParen)
    (ts : List Token) : keepClosed (token :: ts) = (token :: (keepClosed ts).1, (keepClosed ts).2) := by
  obtain ⟨kind, position⟩ := token
  cases kind <;> first | contradiction | rfl

theorem keepClosed_close (position : Nat) (ts : List Token) :
    keepClosed (⟨.closeParen, position⟩ :: ts) =
      (⟨.closeParen, position⟩ :: (keepClosed ts).1, (keepClosed ts).2 + 1) := rfl

theorem keepClosed_open (position : Nat) (ts : List Token) :
    keepClosed (⟨.openParen, position⟩ :: ts) =
      if 0 < (keepClosed ts).2 then (⟨.openParen, position⟩ :: (keepClosed ts).1, (keepClosed ts).2 - 1)
      else ((keepClosed ts).1, 0) := by
  rw [keepClosed]
  split <;> rename_i heq <;> simp [heq]

theorem keepClosed_snd (ts : List Token) : (keepClosed ts).2 = pending (kinds ts) := by
  induction ts with
  | nil => rfl
  | cons token ts ih =>
    obtain ⟨kind, position⟩ := token
    by_cases ho : kind = .openParen
    · subst ho
      rw [keepClosed_open, kinds_cons, pending_open, ← ih]
      split <;> omega
    by_cases hc : kind = .closeParen
    · subst hc
      rw [keepClosed_close, kinds_cons, pending_close, ih]
    rw [keepClosed_other ho hc, kinds_cons, pending_other ho hc, ih]

theorem dropsUnclosed_keepClosed (ts : List Token) : DropsUnclosed (kinds ts) (kinds (keepClosed ts).1) := by
  induction ts with
  | nil => exact .nil
  | cons token ts ih =>
    obtain ⟨kind, position⟩ := token
    have hcloses : Closes (kinds ts) ↔ 0 < (keepClosed ts).2 := by rw [closes_iff, keepClosed_snd]
    by_cases ho : kind = .openParen
    · subst ho
      rw [keepClosed_open]
      split
      · rename_i hpos
        exact .keep (fun _ => hcloses.mpr hpos) ih
      · rename_i hpos
        exact .drop (fun h => hpos (hcloses.mp h)) ih
    by_cases hc : kind = .closeParen
    · subst hc
      exact .keep (fun h => absurd h ho) ih
    rw [keepClosed_other ho hc]
    exact .keep (fun h => absurd h ho) ih

/-- A balanced stretch stays as it is. -/
theorem keepClosed_append_of_balanced {ks : List TokenKind} (h : Balanced ks) {ts : List Token} (hts : kinds ts = ks)
    (rest : List Token) : keepClosed (ts ++ rest) = (ts ++ (keepClosed rest).1, (keepClosed rest).2) := by
  induction h generalizing ts rest with
  | nil =>
    obtain rfl := kinds_eq_nil_iff.mp hts
    rfl
  | skip notOpen notClose _ ih =>
    obtain ⟨position, more, rfl, hmore⟩ := kinds_eq_cons_iff.mp hts
    rw [List.cons_append, keepClosed_other notOpen notClose, ih hmore]
    rfl
  | @group inside ks _ _ inner after =>
    rw [List.cons_append] at hts
    simp only [kinds_eq_cons_iff, kinds_eq_append_iff] at hts
    obtain ⟨p, _, rfl, first, _, rfl, hfirst, p', more, rfl, hmore⟩ := hts
    rw [List.cons_append, keepClosed_open, List.append_assoc, inner hfirst, List.cons_append, keepClosed_close,
      after hmore]
    simp

theorem keepClosed_of_balanced {ts : List Token} (h : Balanced (kinds ts)) : (keepClosed ts).1 = ts := by
  have := keepClosed_append_of_balanced h rfl []
  simp only [List.append_nil] at this
  rw [this]
  simp [keepClosed]

/-- What is kept has nothing more to drop. -/
theorem keepClosed_keepClosed (ts : List Token) : keepClosed (keepClosed ts).1 = keepClosed ts := by
  induction ts with
  | nil => rfl
  | cons token ts ih =>
    obtain ⟨kind, position⟩ := token
    by_cases ho : kind = .openParen
    · subst ho
      rw [keepClosed_open]
      split
      · rename_i hpos
        rw [keepClosed_open, ih, if_pos hpos]
      · rename_i hzero
        rw [ih]
        exact Prod.ext rfl (Nat.eq_zero_of_not_pos hzero)
    by_cases hc : kind = .closeParen
    · subst hc
      rw [keepClosed_close, keepClosed_close, ih]
    rw [keepClosed_other ho hc, keepClosed_other ho hc, ih]

/-- Opening parentheses that are never closed have no part in which closing one is unmatched. -/
theorem unmatchedClose?_keepClosed (n : Nat) (ts : List Token) :
    unmatchedClose? n (keepClosed ts).1 = unmatchedClose? n ts := by
  fun_induction unmatchedClose? n ts with
  | case1 => rfl
  | case2 n position rest ih =>
    rw [keepClosed_open]
    split
    · exact ih
    · -- nothing waits for an opening parenthesis, on either side
      rename_i hzero
      have hall : pending (kinds rest) = 0 := by
        rw [← keepClosed_snd]
        exact Nat.eq_zero_of_not_pos hzero
      have hkept : pending (kinds (keepClosed rest).1) = 0 := by
        rw [← keepClosed_snd, keepClosed_keepClosed, keepClosed_snd, hall]
      have hnone : unmatchedClose? (n + 1) rest = none := (unmatchedClose?_eq_none _ _).mpr (by omega)
      rw [hnone]
      exact (unmatchedClose?_eq_none n _).mpr (hkept ▸ Nat.zero_le n)
  | case3 rest position => rfl
  | case4 rest position n ih => exact ih
  | case5 n token rest hopen hclose ih =>
    obtain ⟨kind, position⟩ := token
    rw [keepClosed_other, unmatchedClose?, ih]
    · exact fun p => hopen p
    · exact fun p => hclose p
    · rintro rfl
      exact hopen position rfl
    · rintro rfl
      exact hclose position rfl

/-- Dropping the opening parentheses that are never closed a second time changes nothing. -/
theorem matchParens_keepClosed (ts : List Token) : matchParens (keepClosed ts).1 = matchParens ts := by
  simp only [matchParens, unmatchedClose?_keepClosed, keepClosed_keepClosed]

theorem DropsUnclosed.unique {ks kept kept' : List TokenKind} (h : DropsUnclosed ks kept)
    (h' : DropsUnclosed ks kept') : kept = kept' := by
  induction h generalizing kept' with
  | nil => cases h'; rfl
  | drop unclosed _ ih =>
    cases h' with
    | drop _ rest => exact ih rest
    | keep closed _ => exact absurd (closed rfl) unclosed
  | keep closed _ ih =>
    cases h' with
    | drop unclosed _ => exact absurd (closed rfl) unclosed
    | keep _ rest => rw [ih rest]

theorem dropsUnclosed_iff {ts : List Token} {kept : List TokenKind} :
    DropsUnclosed (kinds ts) kept ↔ kept = kinds (keepClosed ts).1 :=
  ⟨fun h => h.unique (dropsUnclosed_keepClosed ts), fun h => h ▸ dropsUnclosed_keepClosed ts⟩

end EntityStore.Filter
