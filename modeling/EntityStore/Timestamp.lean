import EntityStore.Calendar
import EntityStore.Decimal
/-!
# Timestamps

Instants in milliseconds since 1970-01-01, read from and written in the forms `yyyy-MM-ddTHH:mm`,
`yyyy-MM-ddTHH:mm:ss`, `yyyy-MM-ddTHH:mm:ss.SSS` and `yyyy-MM-ddTHH:mm:ss.SSS±HH:mm`.
-/
namespace EntityStore.Timestamp

/-! ## Reading -/

/-- Exactly `count` digits, and the rest. -/
def readDigits? (count : Nat) (cs : List Char) : Option (Nat × List Char) :=
  let digits := cs.take count
  if digits.length = count && digits.all Char.isDigit then
    some (Decimal.ofDigits digits, cs.drop count)
  else none

/-- The character `c`, and the rest. -/
def readMark? (c : Char) : List Char → Option (List Char)
  | d :: rest => if d == c then some rest else none
  | [] => none

def timeOfDay? (hour minute second milli : Nat) : Option Int :=
  if hour < 24 && minute < 60 && second < 60 then
    some (((hour * 60 + minute) * 60 + second) * 1000 + milli : Nat)
  else none

/-- An offset `±HH:mm` that ends the text, in milliseconds. -/
def readOffset? : List Char → Option Int
  | sign :: rest => do
    let negative ← if sign == '+' then some false else if sign == '-' then some true else none
    let (hours, rest) ← readDigits? 2 rest
    let rest ← readMark? ':' rest
    let (minutes, rest) ← readDigits? 2 rest
    if rest.isEmpty && hours ≤ 23 && minutes ≤ 59 then
      let offset : Int := (hours * 3600 + minutes * 60 : Nat) * 1000
      some (if negative then -offset else offset)
    else none
  | [] => none

/-- The seconds, milliseconds and offset after the minutes; what is missing is zero. -/
def readTail? : List Char → Option (Nat × Nat × Int)
  | [] => some (0, 0, 0)
  | cs => do
    let rest ← readMark? ':' cs
    let (second, rest) ← readDigits? 2 rest
    if rest.isEmpty then return (second, 0, 0)
    let rest ← readMark? '.' rest
    let (milli, rest) ← readDigits? 3 rest
    if rest.isEmpty then return (second, milli, 0)
    let offset ← readOffset? rest
    return (second, milli, offset)

/-- The instant that a text denotes. An offset is subtracted: it tells how far the local time is ahead. -/
def read? (s : String) : Option Int := do
  let (year, rest) ← readDigits? 4 s.toList
  let rest ← readMark? '-' rest
  let (month, rest) ← readDigits? 2 rest
  let rest ← readMark? '-' rest
  let (day, rest) ← readDigits? 2 rest
  let rest ← readMark? 'T' rest
  let (hour, rest) ← readDigits? 2 rest
  let rest ← readMark? ':' rest
  let (minute, rest) ← readDigits? 2 rest
  let (second, milli, offset) ← readTail? rest
  let date : Date := ⟨year, month, day⟩
  if Calendar.exists? date then
    let time ← timeOfDay? hour minute second milli
    return (Calendar.dayNumber date - Calendar.epoch) * 86400000 + time - offset
  else none

/-! ## Writing -/

def padded (width n : Nat) : String :=
  let digits := Nat.toDigits 10 n
  .ofList (List.replicate (width - digits.length) '0' ++ digits)

/-- A year from 0 to 9999 in four digits; any other with its sign. -/
def yearText (year : Int) : String :=
  if 0 ≤ year && year ≤ 9999 then padded 4 year.toNat
  else (if year < 0 then "-" else "+") ++ padded 4 year.natAbs

/-- The first and the last year that are written as dates. -/
def yearMin : Int := -262143

def yearMax : Int := 262142

/-- The text of an instant, in the form with milliseconds; outside the years that are written as dates, the
number of milliseconds. -/
def text (millis : Int) : String :=
  let date := Calendar.dateOf (millis / 86400000 + Calendar.epoch)
  if yearMin ≤ date.year && date.year ≤ yearMax then
    let time := (millis % 86400000).toNat
    let minutes := time / 60000
    yearText date.year ++ "-" ++ padded 2 date.month ++ "-" ++ padded 2 date.day ++ "T" ++
      padded 2 (minutes / 60) ++ ":" ++ padded 2 (minutes % 60) ++ ":" ++ padded 2 (time / 1000 % 60) ++
      "." ++ padded 3 (time % 1000)
  else toString millis

end EntityStore.Timestamp
