import EntityStore.Double
/-!
# Ranges of types

The values that the numeric and date types hold.
-/
namespace EntityStore.Range

/-- Signed integers of 32 bits. -/
def int32 (n : Int) : Bool := -2147483648 ≤ n && n ≤ 2147483647

/-- The least magnitude of a double apart from zero, `2.23e-308`. -/
def doubleMin : Double := .ofDecimal false 223 (-310)

/-- The greatest magnitude of a double, `1.79e308`. -/
def doubleMax : Double := .ofDecimal false 179 306

/-- Zero, or a magnitude between the two bounds. -/
def double (x : Double) : Bool :=
  !x.isNaN && (x.magnitude == 0 || (doubleMin.le x.abs && x.abs.le doubleMax))

/-- Milliseconds from 1753-01-01 to the end of the year 9999. -/
def dateTime (millis : Int) : Bool := -6847804800000 ≤ millis && millis ≤ 253402300799999

/-- The greatest number of digits of a single before the point, and after it. -/
def singleDigits : Nat := 5

/-- The letters that may end a number. -/
def isSuffix (c : Char) : Bool := "fFdDmMlL".toList.contains c

/-- Is a finite value below `10 ^ 5`, and within a millionth of a multiple of `10 ^ -5` once that is scaled to one? -/
def singleValue (x : Double) : Bool :=
  x.isFinite &&
    (let scaled := x.abs.mul (.ofDecimal false 1 singleDigits)
     x.abs.lt (.ofDecimal false 1 singleDigits) &&
       (scaled.sub scaled.round).abs.lt (.ofDecimal false 1 (-6)))

/-- Five digits at most on either side of the point, at least one before it, and one after it if there is
a point. -/
def singlePlain (body : List Char) : Bool :=
  let whole := body.takeWhile (· != '.')
  let after := body.dropWhile (· != '.')
  let fraction := after.drop 1
  !whole.isEmpty && whole.all Char.isDigit && fraction.all Char.isDigit &&
    (after.isEmpty || !fraction.isEmpty) && whole.length ≤ singleDigits && fraction.length ≤ singleDigits

/-- Does a numeral keep to the digits of a single? Its sign and suffixes do not count; with an exponent, the
value it denotes is checked. -/
def singleText (text : String) : Bool :=
  let body := match text.toList with
    | '-' :: rest => rest
    | cs => cs
  let body := (body.reverse.dropWhile isSuffix).reverse
  if body.any fun c => c == 'e' || c == 'E' then
    match Decimal.readNumeral? body with
    | some n => singleValue (.ofNumeral n)
    | none => false
  else singlePlain body

end EntityStore.Range
