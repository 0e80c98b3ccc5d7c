import EntityStore.Filter.Literal
import EntityStore.Filter.Fault
/-!
# Numeric words

A word is a number by its shape: an optional minus, digits, an optional fraction, an optional exponent and at
most one suffix letter, which decides the class.
-/
namespace EntityStore.Filter

/-- A word of numeric shape in its parts. -/
structure NumericWord where
  negative : Bool
  whole : List Char
  fraction : Option (List Char)
  exponent : Option Int
  suffix : List Char
  deriving DecidableEq, Repr

namespace NumericWord

/-- A point with the digits after it, if a point comes next. -/
def readFraction? : List Char → Option (Option (List Char) × List Char)
  | '.' :: rest =>
    let (digits, rest) := Decimal.spanDigits rest
    if digits.isEmpty then none else some (some digits, rest)
  | cs => some (none, cs)

/-- Splits a word into the parts of a number; what follows the number is the suffix. -/
def read? (cs : List Char) : Option NumericWord := do
  let (negative, cs) := match cs with
    | '-' :: rest => (true, rest)
    | _ => (false, cs)
  let (whole, cs) := Decimal.spanDigits cs
  if whole.isEmpty then none
  let (fraction, cs) ← readFraction? cs
  let (exponent, suffix) ← Decimal.readExponent? cs
  return ⟨negative, whole, fraction, exponent, suffix⟩

def isIntegral (w : NumericWord) : Bool := w.fraction.isNone && w.exponent.isNone

def toInt (w : NumericWord) : Int :=
  let n : Int := Decimal.ofDigits w.whole
  if w.negative then -n else n

def numeral (w : NumericWord) : Decimal.Numeral :=
  let fraction := w.fraction.getD []
  ⟨w.negative, Decimal.ofDigits (w.whole ++ fraction), w.exponent.getD 0 - fraction.length⟩

def toDouble (w : NumericWord) : Double := .ofNumeral w.numeral

end NumericWord

/-- The number that a word denotes; none if it has another shape, and a fault if it does not fit its class. -/
def readNumber? (word : String) : Option (Except Fault Literal) :=
  match NumericWord.read? word.toList with
  | none => none
  | some w =>
    match w.suffix with
    | [] =>
      if w.isIntegral && Decimal.fitsInt64 w.toInt then some (.ok (.integer w.toInt))
      else some (.ok (.double w.toDouble word))
    | ['d'] | ['D'] => some (.ok (.double w.toDouble word))
    | ['f'] | ['F'] => some (.ok (.single w.toDouble word))
    | ['m'] | ['M'] => some (.ok (.decimal word))
    | ['l'] | ['L'] =>
      if !w.isIntegral then none
      else if Decimal.fitsInt64 w.toInt then some (.ok (.long w.toInt))
      else some (.error (.longRange word))
    | _ => none

end EntityStore.Filter
