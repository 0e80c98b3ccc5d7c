import EntityStore.Text.Blank
import Mathlib.Data.List.TakeWhile

/-!
# Blanks around a text

What is cut off at the ends of a text is blank, and all of it. Main statements: `trimChars_append` and
`exists_trimChars`.
-/
namespace EntityStore.Text

variable {before cs after : List Char}

theorem dropWhile_isBlank_of_forall (h : ∀ c ∈ cs, isBlank c = false) : cs.dropWhile isBlank = cs := by
  cases cs with
  | nil => rfl
  | cons c cs => rw [List.dropWhile_cons_of_neg (by simp [h c List.mem_cons_self])]

/-- Blanks around a text that has none itself are cut off. -/
theorem trimChars_append (hbefore : ∀ c ∈ before, isBlank c = true) (hafter : ∀ c ∈ after, isBlank c = true)
    (hcs : ∀ c ∈ cs, isBlank c = false) : trimChars (before ++ cs ++ after) = cs := by
  rw [trimChars, List.append_assoc, List.dropWhile_append_of_pos hbefore]
  cases cs with
  | nil => rw [List.nil_append, List.dropWhile_eq_nil_iff.mpr hafter, List.reverse_nil, List.dropWhile_nil,
      List.reverse_nil]
  | cons c cs =>
    have hfirst : ¬ isBlank c = true := by simp [hcs c List.mem_cons_self]
    rw [List.cons_append, List.dropWhile_cons_of_neg hfirst, ← List.cons_append, List.reverse_append,
      List.dropWhile_append_of_pos fun c hc => hafter c (List.mem_reverse.mp hc),
      dropWhile_isBlank_of_forall fun c hc => hcs c (List.mem_reverse.mp hc), List.reverse_reverse]

/-- Only blanks are cut off. -/
theorem exists_trimChars (cs : List Char) : ∃ before after, cs = before ++ trimChars cs ++ after ∧
    (∀ c ∈ before, isBlank c = true) ∧ ∀ c ∈ after, isBlank c = true := by
  have hrest : cs.dropWhile isBlank = trimChars cs ++ ((cs.dropWhile isBlank).reverse.takeWhile isBlank).reverse := by
    rw [trimChars, ← List.reverse_append, List.takeWhile_append_dropWhile, List.reverse_reverse]
  refine ⟨cs.takeWhile isBlank, ((cs.dropWhile isBlank).reverse.takeWhile isBlank).reverse, ?_,
    fun c hc => List.mem_takeWhile_imp hc, fun c hc => List.mem_takeWhile_imp (List.mem_reverse.mp hc)⟩
  rw [List.append_assoc, ← hrest, List.takeWhile_append_dropWhile]

theorem isBlank_of_isDigit {c : Char} (h : c.isDigit = true) : isBlank c = false := by
  have hrange : 48 ≤ c.toNat ∧ c.toNat ≤ 57 := Char.isDigit_iff_toNat.mp h
  simp only [isBlank, Bool.or_eq_false_iff, Bool.and_eq_false_iff, decide_eq_false_iff_not, beq_eq_false_iff_ne]
  omega

/-- A text with nothing but blanks. -/
def AllBlank (s : String) : Prop := ∀ c ∈ s.toList, isBlank c = true

theorem allBlank_empty : AllBlank "" := by
  simp [AllBlank]

theorem trimChars_around {before s after : String} (hbefore : AllBlank before) (hafter : AllBlank after)
    (hs : ∀ c ∈ s.toList, isBlank c = false) : trimChars (before ++ s ++ after).toList = s.toList := by
  rw [String.toList_append, String.toList_append]
  exact trimChars_append hbefore hafter hs

end EntityStore.Text
