import EntityStore.Calendar
import Mathlib.Algebra.Ring.Nat

/-!
# Dates and their numbers

Every number is the number of a date of the calendar, the one that `dateOf` gives. Main statements:
`exists?_dateOf` and `dayNumber_dateOf`.
-/
namespace EntityStore.Calendar

theorem yearStart_succ (year : Int) :
    yearStart (year + 1) = yearStart year + (monthLengths (isLeap year)).sum := by
  have hlengths : ∀ leap, (monthLengths leap).sum = if leap then 366 else 365 := by decide
  rw [hlengths]
  unfold yearStart isLeap
  by_cases h₁ : year % 4 = 0 <;> by_cases h₂ : year % 100 = 0 <;> by_cases h₃ : year % 400 = 0 <;>
    simp [h₁, h₂, h₃] <;> omega

/-- The year found contains the day: the mean length of a year errs by less than one year. -/
theorem yearStart_yearOf (n : Int) : yearStart (yearOf n) ≤ n ∧ n < yearStart (yearOf n + 1) := by
  unfold yearOf
  have hmean : 146097 * (400 * n / 146097) ≤ 400 * n := by omega
  have hmean' : 400 * n < 146097 * (400 * n / 146097) + 146097 := by omega
  generalize 400 * n / 146097 = guess at hmean hmean'
  dsimp only
  split
  · rename_i h
    refine ⟨?_, by simpa using h⟩
    unfold yearStart
    omega
  split
  · rename_i h
    refine ⟨h, ?_⟩
    unfold yearStart
    omega
  · rename_i h h'
    omega

theorem monthDay_spec (month n : Nat) {lengths : List Nat} (h : n < lengths.sum) :
    ∃ k day length, monthDay month n lengths = (month + k, day + 1) ∧ lengths[k]? = some length ∧
      day < length ∧ n = (lengths.take k).sum + day := by
  induction lengths generalizing month n with
  | nil => simp at h
  | cons length rest ih =>
    unfold monthDay
    split
    · rename_i hn
      exact ⟨0, n, length, rfl, rfl, hn, by simp⟩
    · rename_i hn
      rw [List.sum_cons] at h
      obtain ⟨k, day, length', hday, hlength, hlt, hsum⟩ := ih (month + 1) (n - length) (by omega)
      refine ⟨k + 1, day, length', ?_, hlength, hlt, ?_⟩
      · rw [hday, Nat.add_assoc, Nat.add_comm 1 k]
      · rw [List.take_succ_cons, List.sum_cons]
        omega

/-- The parts of a date: its year contains the day, and its month the rest. -/
theorem dateOf_spec (n : Int) :
    ∃ k day length, dateOf n = ⟨yearOf n, k + 1, day + 1⟩ ∧
      (monthLengths (isLeap (yearOf n)))[k]? = some length ∧ day < length ∧
      n = yearStart (yearOf n) + ((monthLengths (isLeap (yearOf n))).take k).sum + day := by
  obtain ⟨hle, hlt⟩ := yearStart_yearOf n
  rw [yearStart_succ] at hlt
  have hrest : (n - yearStart (yearOf n)).toNat < (monthLengths (isLeap (yearOf n))).sum := by omega
  obtain ⟨k, day, length, hmonth, hlength, hday, hsum⟩ := monthDay_spec 1 _ hrest
  refine ⟨k, day, length, ?_, hlength, hday, ?_⟩
  · simp only [dateOf, hmonth, Nat.add_comm 1 k]
  · omega

theorem exists?_dateOf (n : Int) : exists? (dateOf n) = true := by
  obtain ⟨k, day, length, hdate, hlength, hday, _⟩ := dateOf_spec n
  rw [hdate, exists?]
  simp only [Nat.add_sub_cancel, hlength, Option.any_some, Bool.and_eq_true, decide_eq_true_eq]
  omega

theorem dayNumber_dateOf (n : Int) : dayNumber (dateOf n) = n := by
  obtain ⟨k, day, length, hdate, _, _, hsum⟩ := dateOf_spec n
  rw [hdate, dayNumber, daysBefore, ← List.sum_eq_foldl, Nat.add_sub_cancel]
  dsimp only
  omega

end EntityStore.Calendar
