/-!
# The Gregorian calendar

Dates of the proleptic Gregorian calendar and their numbers, day 0 being the first of January of the year 0.
-/
namespace EntityStore

/-- A day by year, month (from 1) and day of the month (from 1). -/
structure Date where
  year : Int
  month : Nat
  day : Nat
  deriving DecidableEq, Repr

namespace Calendar

def isLeap (year : Int) : Bool := year % 4 == 0 && (year % 100 != 0 || year % 400 == 0)

/-- The lengths of the twelve months. -/
def monthLengths (leap : Bool) : List Nat :=
  [31, if leap then 29 else 28, 31, 30, 31, 30, 31, 31, 30, 31, 30, 31]

/-- The number of the first day of a year. -/
def yearStart (year : Int) : Int := 365 * year + (year + 3) / 4 - (year + 99) / 100 + (year + 399) / 400

def exists? (d : Date) : Bool :=
  1 ≤ d.month && 1 ≤ d.day && ((monthLengths (isLeap d.year))[d.month - 1]?).any (d.day ≤ ·)

def daysBefore (leap : Bool) (month : Nat) : Nat := ((monthLengths leap).take (month - 1)).foldl (· + ·) 0

def dayNumber (d : Date) : Int := yearStart d.year + daysBefore (isLeap d.year) d.month + d.day - 1

/-- The year that day `n` lies in: the mean length of a year gives it up to one. -/
def yearOf (n : Int) : Int :=
  let guess := 400 * n / 146097
  if n < yearStart guess then guess - 1
  else if yearStart (guess + 1) ≤ n then guess + 1
  else guess

/-- The month and the day of the month of day `n` (from 0) of a year whose months, from `month` on, have these
lengths. -/
def monthDay (month : Nat) (n : Nat) : List Nat → Nat × Nat
  | [] => (month, n + 1)
  | length :: rest => if n < length then (month, n + 1) else monthDay (month + 1) (n - length) rest

def dateOf (n : Int) : Date :=
  let year := yearOf n
  let (month, day) := monthDay 1 (n - yearStart year).toNat (monthLengths (isLeap year))
  ⟨year, month, day⟩

def epoch : Int := yearStart 1970

end Calendar

end EntityStore
