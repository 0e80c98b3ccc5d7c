import EntityStore.Text.Lowercase
import Mathlib.Data.List.TakeWhile

/-!
# Lower case of a part

The lower-case form of a part of a text is that of the part alone, capital sigmas apart: whether these are final
depends on what surrounds them. Main statements: `lowerBetween_eq_iff`, `infix_lower` and `forall_infix_lower_iff`.
-/
namespace EntityStore.Text

/-- Between these two texts a capital sigma is final. -/
def isFinal (before after : List Char) : Bool := startsCased before.reverse && !startsCased after

def sigmaForm (final : Bool) : Char := if final then finalSigma else smallSigma

/-- The lower-case form of a part of a text. -/
def lowerBetween (before : List Char) : List Char → List Char → List Char
  | [], _ => []
  | c :: rest, after =>
    (if c = capitalSigma then [sigmaForm (isFinal before (rest ++ after))] else lowerChar c) ++
      lowerBetween (before ++ [c]) rest after

variable {before before' word after after' : List Char}

/-! ## Parts -/

theorem lowerFrom_append (before word after : List Char) : lowerFrom before.reverse (word ++ after) =
    lowerBetween before word after ++ lowerFrom (before ++ word).reverse after := by
  induction word generalizing before with
  | nil => rw [lowerBetween, List.append_nil, List.nil_append, List.nil_append]
  | cons c rest ih =>
    have hstep : c :: before.reverse = (before ++ [c]).reverse := by simp
    rw [List.cons_append, lowerFrom, hstep, ih, lowerBetween, List.append_assoc, List.append_assoc,
      List.singleton_append]
    by_cases hc : c = capitalSigma <;> simp [hc, isFinal, sigmaForm]

theorem lower_eq (word : List Char) : lower word = lowerBetween [] word [] := by
  have happend := lowerFrom_append [] word []
  rwa [List.append_nil, lowerFrom, List.append_nil] at happend

theorem lower_append (before word after : List Char) : lower (before ++ word ++ after) =
    lowerBetween [] before (word ++ after) ++ lowerBetween before word after ++
      lowerFrom (before ++ word).reverse after := by
  have hbefore := lowerFrom_append [] before (word ++ after)
  rw [List.nil_append, lowerFrom_append before word after] at hbefore
  rw [List.append_assoc, List.append_assoc]
  exact hbefore

/-! ## Two surroundings -/

/-- How final each capital sigma of a text is in two surroundings is related so. -/
def SigmasRelate (R : Bool → Bool → Prop) (word before after before' after' : List Char) : Prop :=
  ∀ u v, word = u ++ capitalSigma :: v → R (isFinal (before ++ u) (v ++ after)) (isFinal (before' ++ u) (v ++ after'))

theorem sigmasRelate_cons {R : Bool → Bool → Prop} {c : Char} {rest : List Char} :
    SigmasRelate R (c :: rest) before after before' after' ↔
      (c = capitalSigma → R (isFinal before (rest ++ after)) (isFinal before' (rest ++ after'))) ∧
        SigmasRelate R rest (before ++ [c]) after (before' ++ [c]) after' := by
  constructor
  · intro h
    constructor
    · rintro rfl
      simpa using h [] rest rfl
    · rintro u v rfl
      simpa using h (c :: u) v rfl
  · rintro ⟨hfirst, hrest⟩ u v heq
    cases u with
    | nil =>
      cases heq
      simpa using hfirst rfl
    | cons d u =>
      cases heq
      simpa using hrest u v rfl

theorem sigmaForm_inj {a b : Bool} : sigmaForm a = sigmaForm b ↔ a = b := by
  cases a <;> cases b <;> decide

/-- A part has the same lower-case form in two surroundings exactly if its capital sigmas have. -/
theorem lowerBetween_eq_iff : lowerBetween before word after = lowerBetween before' word after' ↔
    SigmasRelate Eq word before after before' after' := by
  induction word generalizing before before' with
  | nil => exact ⟨fun _ u v h => by simp at h, fun _ => rfl⟩
  | cons c rest ih =>
    rw [sigmasRelate_cons, ← ih, lowerBetween, lowerBetween]
    by_cases hc : c = capitalSigma
    · simp only [hc, if_true, List.singleton_append, List.cons.injEq, sigmaForm_inj, true_implies]
    · simp only [hc, if_false, List.append_cancel_left_eq, false_implies, true_and]

/-- Where all sigmas that have a form keep it, that form is no rarer, and if the texts differ it is more frequent. -/
theorem count_sigmaForm {final : Bool}
    (h : SigmasRelate (fun a b => a = final → b = final) word before after before' after') :
    (lowerBetween before word after).count (sigmaForm final) ≤
        (lowerBetween before' word after').count (sigmaForm final) ∧
      (lowerBetween before word after ≠ lowerBetween before' word after' →
        (lowerBetween before word after).count (sigmaForm final) <
          (lowerBetween before' word after').count (sigmaForm final)) := by
  induction word generalizing before before' with
  | nil => exact ⟨Nat.le_refl _, fun hne => absurd rfl hne⟩
  | cons c rest ih =>
    obtain ⟨hfirst, hrest⟩ := sigmasRelate_cons.mp h
    obtain ⟨hle, hlt⟩ := ih hrest
    rw [lowerBetween, lowerBetween]
    by_cases hc : c = capitalSigma
    · have hkeeps := hfirst hc
      simp only [hc, if_true, List.singleton_append, List.count_cons, beq_iff_eq, sigmaForm_inj, ne_eq,
        List.cons.injEq, not_and] at hle hlt ⊢
      generalize isFinal before (rest ++ after) = a at hkeeps ⊢
      generalize isFinal before' (rest ++ after') = b at hkeeps ⊢
      by_cases hab : a = b
      · subst hab
        exact ⟨Nat.add_le_add_right hle _, fun hne => Nat.add_lt_add_right (hlt (hne rfl)) _⟩
      · -- the form is gained here
        have ha : ¬ a = final := fun ha => hab (ha.trans (hkeeps ha).symm)
        have hb : b = final := by
          rw [Bool.eq_not.mpr hab] at ha
          simpa using ha
        rw [if_neg ha, if_pos hb]
        exact ⟨by omega, fun _ => by omega⟩
    · simp only [hc, if_false, List.count_append, ne_eq, List.append_cancel_left_eq]
      exact ⟨Nat.add_le_add_left hle _, fun hne => Nat.add_lt_add_left (hlt hne) _⟩

/-! ## Parts of a text -/

/-- A part is found in lower case if each of its capital sigmas is final in the text as it is in the part alone. -/
theorem infix_lower (h : ∀ u v, word = u ++ capitalSigma :: v → isFinal (before ++ u) (v ++ after) = isFinal u v) :
    lower word <:+: lower (before ++ word ++ after) := by
  have hsame : lowerBetween before word after = lower word := by
    rw [lower_eq, lowerBetween_eq_iff]
    intro u v hword
    rw [h u v hword, List.nil_append, List.append_nil]
  rw [lower_append, hsame]
  exact List.infix_append _ _ _

/-- Nothing but case-ignorable characters. -/
def AllIgnorable (cs : List Char) : Prop := ∀ c ∈ cs, inRanges caseIgnorableRanges c = true

theorem startsCased_append_of_allIgnorable (h : AllIgnorable word) (after : List Char) :
    startsCased (word ++ after) = startsCased after := by
  rw [startsCased, startsCased, List.dropWhile_append_of_pos h]

theorem startsCased_of_allIgnorable (h : AllIgnorable word) : startsCased word = false := by
  have happend := startsCased_append_of_allIgnorable h []
  rw [List.append_nil] at happend
  rw [happend]
  rfl

theorem startsCased_append_of_not (h : ¬ AllIgnorable word) (after : List Char) :
    startsCased (word ++ after) = startsCased word := by
  have hne : word.dropWhile (inRanges caseIgnorableRanges) ≠ [] := fun hnil => h (List.dropWhile_eq_nil_iff.mp hnil)
  obtain ⟨c, rest, hcons⟩ := List.exists_cons_of_ne_nil hne
  rw [startsCased, startsCased, List.dropWhile_append, hcons]
  rfl

theorem allIgnorable_reverse : AllIgnorable word.reverse ↔ AllIgnorable word := by
  simp only [AllIgnorable, List.mem_reverse]

/-- Between these two parts of a word, whether a capital sigma is final depends on what surrounds the word: no cased
character stands between the sigma and the beginning of the word and none follows it, or one precedes it and none stands
between the sigma and the end. -/
def Hangs (u v : List Char) : Prop :=
  AllIgnorable u ∧ startsCased v = false ∨ AllIgnorable v ∧ startsCased u.reverse = true

variable {u v : List Char}

theorem isFinal_of_not_hangs (h : ¬ Hangs u v) (before after : List Char) :
    isFinal (before ++ u) (v ++ after) = isFinal u v := by
  obtain ⟨hbefore, hafter⟩ := not_or.mp h
  rw [isFinal, isFinal, List.reverse_append]
  by_cases hu : AllIgnorable u
  · -- a cased character follows, so the sigma is not final anywhere
    have hcased : startsCased v = true := by simpa using fun hnone => hbefore ⟨hu, hnone⟩
    have hv : ¬ AllIgnorable v := fun hv => by simp [startsCased_of_allIgnorable hv] at hcased
    rw [startsCased_append_of_not hv, hcased, Bool.not_true, Bool.and_false, Bool.and_false]
  · rw [startsCased_append_of_not fun hu' => hu (allIgnorable_reverse.mp hu')]
    by_cases hv : AllIgnorable v
    · have huncased : startsCased u.reverse = false := by simpa using fun hcased => hafter ⟨hv, hcased⟩
      rw [huncased, Bool.false_and, Bool.false_and]
    · rw [startsCased_append_of_not hv]

theorem startsCased_append_left (h : startsCased word = true) (after : List Char) :
    startsCased (word ++ after) = true := by
  rw [startsCased_append_of_not, h]
  intro hword
  simp [startsCased_of_allIgnorable hword] at h

theorem startsCased_letter : startsCased ['A'] = true := by decide +kernel

theorem lowerFrom_letter (before : List Char) : lowerFrom before ['A'] = ['a'] := by
  rfl

/-- After a word that ends in a final sigma a letter makes the sigma an ordinary one. -/
theorem not_infix_lower_of_after (hword : word = u ++ capitalSigma :: v) (hv : AllIgnorable v)
    (hu : startsCased u.reverse = true) : ¬ lower word <:+: lower (word ++ ['A']) := by
  have hkeeps : SigmasRelate (fun a b => a = true → b = true) word [] ['A'] [] [] := by
    intro u v _ hfinal
    rw [isFinal, Bool.and_eq_true, Bool.not_eq_true'] at hfinal ⊢
    refine ⟨hfinal.1, ?_⟩
    by_contra hcased
    rw [List.append_nil, Bool.not_eq_false] at hcased
    simp [startsCased_append_left hcased] at hfinal
  have hne : lowerBetween [] word ['A'] ≠ lowerBetween [] word [] := by
    rw [Ne, lowerBetween_eq_iff]
    intro hsame
    have hsigma := hsame u v hword
    simp [isFinal, hu, startsCased_append_of_allIgnorable hv, startsCased_letter, startsCased_of_allIgnorable hv]
      at hsigma
  have hlt := (count_sigmaForm hkeeps).2 hne
  have htext : lower (word ++ ['A']) = lowerBetween [] word ['A'] ++ ['a'] := by
    have happend := lowerFrom_append [] word ['A']
    rwa [lowerFrom_letter] at happend
  rw [htext, lower_eq]
  intro hinfix
  have hle := hinfix.sublist.count_le (sigmaForm true)
  have hletter : ['a'].count (sigmaForm true) = 0 := by decide
  rw [List.count_append, hletter] at hle
  omega

/-- Before a word that begins with an ordinary sigma a letter makes the sigma a final one. -/
theorem not_infix_lower_of_before (hword : word = u ++ capitalSigma :: v) (hu : AllIgnorable u)
    (hv : startsCased v = false) : ¬ lower word <:+: lower ('A' :: word) := by
  have hkeeps : SigmasRelate (fun a b => a = false → b = false) word ['A'] [] [] [] := by
    intro u v _ hordinary
    by_contra hfinal
    rw [Bool.not_eq_false, isFinal, Bool.and_eq_true, Bool.not_eq_true', List.nil_append] at hfinal
    rw [isFinal, List.reverse_append, startsCased_append_left hfinal.1, hfinal.2] at hordinary
    cases hordinary
  have hne : lowerBetween ['A'] word [] ≠ lowerBetween [] word [] := by
    rw [Ne, lowerBetween_eq_iff]
    intro hsame
    have hsigma := hsame u v hword
    have hu' := allIgnorable_reverse.mpr hu
    simp [isFinal, hv, startsCased_append_of_allIgnorable hu', startsCased_letter, startsCased_of_allIgnorable hu']
      at hsigma
  have hlt := (count_sigmaForm hkeeps).2 hne
  have htext : lower ('A' :: word) = 'a' :: lowerBetween ['A'] word [] := by
    have happend := lower_append ['A'] word []
    rw [List.append_nil, lowerFrom, List.append_nil, List.append_nil] at happend
    exact happend
  rw [htext, lower_eq]
  intro hinfix
  have hle := hinfix.sublist.count_le (sigmaForm false)
  have hletter : ¬ ('a' == sigmaForm false) = true := by decide
  rw [List.count_cons, if_neg hletter] at hle
  omega

/-- The words that are found in lower case in every text they occur in are those of which no capital sigma hangs on its
surroundings. -/
theorem forall_infix_lower_iff (word : List Char) : (∀ text, word <:+: text → lower word <:+: lower text) ↔
    ∀ u v, word = u ++ capitalSigma :: v → ¬ Hangs u v := by
  constructor
  · rintro h u v hword (⟨hu, hv⟩ | ⟨hv, hu⟩)
    · exact not_infix_lower_of_before hword hu hv (h _ (List.suffix_cons _ _).isInfix)
    · exact not_infix_lower_of_after hword hv hu (h _ (List.prefix_append _ _).isInfix)
  · rintro h _ ⟨before, after, rfl⟩
    exact infix_lower fun u v hword => isFinal_of_not_hangs (h u v hword) before after

/-- In a word that stands apart from cased characters no sigma changes. -/
theorem isFinal_of_apart (hbefore : startsCased before.reverse = false) (hafter : startsCased after = false)
    (u v : List Char) : isFinal (before ++ u) (v ++ after) = isFinal u v := by
  have happend : ∀ {cs ds}, startsCased ds = false → startsCased (cs ++ ds) = startsCased cs := by
    intro cs ds hds
    by_cases hcs : AllIgnorable cs
    · rw [startsCased_append_of_allIgnorable hcs, hds, startsCased_of_allIgnorable hcs]
    · exact startsCased_append_of_not hcs ds
  rw [isFinal, isFinal, List.reverse_append, happend hbefore, happend hafter]

end EntityStore.Text
