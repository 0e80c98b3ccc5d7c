import EntityStore.Proofs.Calendar

/-!
# The order of dates

The number of a date rises from each date to the next, so no two dates have one number. Main statements:
`dayNumber_lt_iff` and `dayNumber_inj`.
-/
namespace EntityStore.Calendar

variable {d e : Date}

/-- The number of days of a month. -/
def daysIn (leap : Bool) (month : Nat) : Nat :=
  if month = 2 then if leap then 29 else 28
  else if month = 4 ∨ month = 6 ∨ month = 9 ∨ month = 11 then 30
  else 31

theorem daysIn_le (leap : Bool) (month : Nat) : daysIn leap month ≤ 31 := by
  unfold daysIn
  split_ifs <;> omega

theorem getElem?_monthLengths (leap : Bool) {month : Nat} (h : 1 ≤ month) (h' : month ≤ 12) :
    (monthLengths leap)[month - 1]? = some (daysIn leap month) := by
  have hall : ∀ leap : Bool, ∀ month : Fin 13, 1 ≤ month.val →
      (monthLengths leap)[month.val - 1]? = some (daysIn leap month.val) := by decide
  exact hall leap ⟨month, by omega⟩ h

/-- The date is one of the calendar. -/
def IsDate (d : Date) : Prop :=
  (1 ≤ d.month ∧ d.month ≤ 12) ∧ 1 ≤ d.day ∧ d.day ≤ daysIn (isLeap d.year) d.month

theorem exists?_iff : exists? d = true ↔ IsDate d := by
  have hlength : (monthLengths (isLeap d.year)).length = 12 := rfl
  simp only [exists?, Bool.and_eq_true, decide_eq_true_eq]
  constructor
  · intro h
    obtain ⟨⟨hmonth, hday⟩, hlast⟩ := h
    have hmonth' : d.month ≤ 12 := by
      by_contra hlarge
      rw [List.getElem?_eq_none (by omega)] at hlast
      cases hlast
    rw [getElem?_monthLengths _ hmonth hmonth'] at hlast
    exact ⟨⟨hmonth, hmonth'⟩, hday, by simpa using hlast⟩
  · intro h
    obtain ⟨⟨hmonth, hmonth'⟩, hday, hlast⟩ := h
    rw [getElem?_monthLengths _ hmonth hmonth']
    exact ⟨⟨hmonth, hday⟩, by simpa using hlast⟩

/-! ## Years -/

theorem yearStart_mono {y z : Int} (h : y ≤ z) : yearStart y ≤ yearStart z := by
  unfold yearStart
  omega

theorem daysBefore_add_le (leap : Bool) {month : Nat} (h : 1 ≤ month) (h' : month ≤ 12) :
    daysBefore leap month + daysIn leap month ≤ (monthLengths leap).sum := by
  have hall : ∀ leap : Bool, ∀ month : Fin 13, 1 ≤ month.val →
      daysBefore leap month.val + daysIn leap month.val ≤ (monthLengths leap).sum := by decide
  exact hall leap ⟨month, by omega⟩ h

/-- A date lies in its year. -/
theorem yearStart_dayNumber (h : IsDate d) :
    yearStart d.year ≤ dayNumber d ∧ dayNumber d < yearStart (d.year + 1) := by
  obtain ⟨⟨hmonth, hmonth'⟩, hday, hlast⟩ := h
  have hyear := daysBefore_add_le (isLeap d.year) hmonth hmonth'
  rw [yearStart_succ, dayNumber]
  omega

theorem le_year_dateOf_iff {y n : Int} : y ≤ (dateOf n).year ↔ yearStart y ≤ n := by
  have hyear : (dateOf n).year = yearOf n := rfl
  obtain ⟨hfirst, hlast⟩ := yearStart_yearOf n
  rw [hyear]
  constructor
  · intro h
    have hstart := yearStart_mono h
    omega
  · intro h
    by_contra hlt
    have hstart := yearStart_mono (show yearOf n + 1 ≤ y by omega)
    omega

/-! ## Months and days -/

/-- The order of dates: by year, then by month, then by day. -/
def Earlier (d e : Date) : Prop :=
  d.year < e.year ∨ d.year = e.year ∧ (d.month < e.month ∨ d.month = e.month ∧ d.day < e.day)

theorem daysBefore_add_le_daysBefore (leap : Bool) {m n : Nat} (hm : 1 ≤ m) (h : m < n) (hn : n ≤ 12) :
    daysBefore leap m + daysIn leap m ≤ daysBefore leap n := by
  have hall : ∀ leap : Bool, ∀ m n : Fin 13, 1 ≤ m.val → m < n →
      daysBefore leap m.val + daysIn leap m.val ≤ daysBefore leap n.val := by decide
  exact hall leap ⟨m, by omega⟩ ⟨n, by omega⟩ hm h

theorem dayNumber_lt_of_earlier (hd : IsDate d) (he : IsDate e) (h : Earlier d e) :
    dayNumber d < dayNumber e := by
  rcases h with hyear | ⟨hyear, hmonth | ⟨hmonth, hday⟩⟩
  · have hstart := yearStart_mono (show d.year + 1 ≤ e.year by omega)
    have hlast := (yearStart_dayNumber hd).2
    have hfirst := (yearStart_dayNumber he).1
    omega
  · obtain ⟨⟨hdmonth, _⟩, _, hdlast⟩ := hd
    obtain ⟨⟨_, hemonth⟩, heday, _⟩ := he
    have hbefore := daysBefore_add_le_daysBefore (isLeap d.year) hdmonth hmonth hemonth
    rw [dayNumber, dayNumber, ← hyear]
    omega
  · rw [dayNumber, dayNumber, ← hyear, ← hmonth]
    omega

theorem earlier_trichotomy (d e : Date) : Earlier d e ∨ d = e ∨ Earlier e d := by
  obtain ⟨y, m, k⟩ := d
  obtain ⟨y', m', k'⟩ := e
  simp only [Earlier, Date.mk.injEq]
  omega

theorem dayNumber_lt_iff (hd : IsDate d) (he : IsDate e) :
    dayNumber d < dayNumber e ↔ Earlier d e := by
  constructor
  · intro h
    rcases earlier_trichotomy d e with hlt | heq | hgt
    · exact hlt
    · rw [heq] at h
      omega
    · have hback := dayNumber_lt_of_earlier he hd hgt
      omega
  · exact dayNumber_lt_of_earlier hd he

theorem dayNumber_inj (hd : IsDate d) (he : IsDate e) (h : dayNumber d = dayNumber e) : d = e := by
  rcases earlier_trichotomy d e with hlt | heq | hgt
  · have := dayNumber_lt_of_earlier hd he hlt
    omega
  · exact heq
  · have := dayNumber_lt_of_earlier he hd hgt
    omega

theorem isDate_dateOf (n : Int) : IsDate (dateOf n) := exists?_iff.mp (exists?_dateOf n)

end EntityStore.Calendar
