import EntityStore.Json
import EntityStore.Text.Hex
/-!
# JSON texts

Reading JSON in two steps: a text is first read as written, with the fields of an object in the order of the
text and repeated ones kept, and a written value then denotes a JSON value or none. A reader that passes over
a field asks nothing of its value but that it is well formed.
-/
namespace EntityStore.Json

open EntityStore.Text

/-- A JSON text as written. A numeral or a string that denotes no value is kept as `none`. -/
inductive Written where
  | null
  | bool (b : Bool)
  | number (value : Option Number)
  | string (value : Option String)
  | array (items : List Written)
  | object (fields : List (Option String × Written))
  deriving Inhabited, Repr

/-! ## Numerals -/

def significandMax : Nat := 18446744073709551615

/-- Takes up digits while the significand stays within 64 bits; returns it and the digits left over. -/
def takeUp (significand : Nat) : List Char → Nat × List Char
  | [] => (significand, [])
  | c :: rest =>
    let next := significand * 10 + (c.toNat - '0'.toNat)
    if next ≤ significandMax then takeUp next rest else (significand, c :: rest)

/-- `x * 10 ^ exponent`, with the powers of ten themselves rounded: a negative exponent divides, and one below
-308 divides by `10 ^ 308` first. A result that is too large is none. -/
def scale (x : Double) (exponent : Int) : Option Double :=
  let power (e : Nat) := Double.ofDecimal false 1 e
  if x.magnitude = 0 then some x
  else if 308 < exponent then none
  else if 0 ≤ exponent then
    let product := x.mul (power exponent.toNat)
    if product.isFinite then some product else none
  else if -308 ≤ exponent then some (x.div (power exponent.natAbs))
  else if -616 ≤ exponent then some ((x.div (power 308)).div (power (exponent + 308).natAbs))
  else some (.withSign false 0)

/-- The value of a numeral given by its parts; `exponent` is `none` if the text has neither a point nor an
exponent. The significand has at most 64 bits: digits of the whole part beyond it scale the value, digits
of the fraction beyond it are dropped. -/
def numeralValue (negative : Bool) (whole fraction : List Char) (exponent : Option Int) : Option Number :=
  let (significand, beyond) := takeUp 0 whole
  match exponent, beyond with
  | none, [] =>
    if !negative then some (.int significand)
    else if 0 < significand && significand ≤ 9223372036854775808 then some (.int (-significand))
    else some (.real (Double.ofInt significand).neg)
  | _, _ =>
    let (digits, dropped) := takeUp significand fraction
    let shift : Int := beyond.length - (fraction.length - dropped.length : Int)
    (scale (.ofInt digits) (exponent.getD 0 + shift)).map fun x => .real (if negative then x.neg else x)

/-- A numeral and the rest: no leading zeros, and digits after a point. -/
def readNumber (cs : List Char) : Option (Written × List Char) := do
  let (negative, cs) := match cs with
    | '-' :: rest => (true, rest)
    | _ => (false, cs)
  let (whole, cs) := match cs with
    | '0' :: rest => (['0'], rest)
    | _ => Decimal.spanDigits cs
  if whole.isEmpty then none
  if whole == ['0'] && (cs.head?.any Char.isDigit) then none
  match cs with
  | '.' :: rest =>
    let (fraction, rest) := Decimal.spanDigits rest
    if fraction.isEmpty then none
    let (exponent, rest) ← Decimal.readExponent? rest
    return (.number (numeralValue negative whole fraction (some (exponent.getD 0))), rest)
  | _ =>
    let (exponent, rest) ← Decimal.readExponent? cs
    return (.number (numeralValue negative whole [] exponent), rest)

/-! ## Strings -/

/-- A piece of a string: a character, or the number of an escape `\u`. -/
inductive Piece where
  | char (c : Char)
  | unit (n : Nat)
  deriving DecidableEq, Repr

def shortEscape? (c : Char) : Option Char :=
  match c with
  | '"' => some '"'
  | '\\' => some '\\'
  | '/' => some '/'
  | 'b' => some (Char.ofNat 8)
  | 'f' => some (Char.ofNat 12)
  | 'n' => some '\n'
  | 'r' => some '\r'
  | 't' => some '\t'
  | _ => none

/-- The pieces of a string up to its closing quote, and the rest. -/
def readPieces : List Char → Option (List Piece × List Char)
  | '"' :: rest => some ([], rest)
  | '\\' :: 'u' :: a :: b :: c :: d :: rest => do
    let n ← hexNumber? [a, b, c, d]
    let (pieces, rest) ← readPieces rest
    return (.unit n :: pieces, rest)
  | '\\' :: c :: rest => do
    let c ← shortEscape? c
    let (pieces, rest) ← readPieces rest
    return (.char c :: pieces, rest)
  | c :: rest =>
    if c.toNat < 0x20 then none
    else do
      let (pieces, rest) ← readPieces rest
      return (.char c :: pieces, rest)
  | [] => none

/-- The text of pieces; two escapes that are a surrogate pair make one character, a lone surrogate none. -/
def textOfPieces? : List Piece → Option (List Char)
  | [] => some []
  | .char c :: rest => (textOfPieces? rest).map (c :: ·)
  | .unit n :: rest =>
    if 0xDC00 ≤ n && n ≤ 0xDFFF then none
    else if 0xD800 ≤ n && n ≤ 0xDBFF then
      match rest with
      | .unit m :: rest =>
        if 0xDC00 ≤ m && m ≤ 0xDFFF then
          (textOfPieces? rest).map (Char.ofNat (0x10000 + (n - 0xD800) * 0x400 + (m - 0xDC00)) :: ·)
        else none
      | _ => none
    else (textOfPieces? rest).map (Char.ofNat n :: ·)

def readString (cs : List Char) : Option (Option String × List Char) :=
  (readPieces cs).map fun (pieces, rest) => ((textOfPieces? pieces).map .ofList, rest)

/-! ## Values -/

/-- Skips the four blanks that JSON allows between tokens. -/
def skipBlanks (cs : List Char) : List Char :=
  cs.dropWhile fun c => c == ' ' || c == '\t' || c == '\n' || c == '\r'

mutual

def readValue : Nat → List Char → Option (Written × List Char)
  | 0, _ => none
  | fuel + 1, cs =>
    match skipBlanks cs with
    | 'n' :: 'u' :: 'l' :: 'l' :: rest => some (.null, rest)
    | 't' :: 'r' :: 'u' :: 'e' :: rest => some (.bool true, rest)
    | 'f' :: 'a' :: 'l' :: 's' :: 'e' :: rest => some (.bool false, rest)
    | '"' :: rest => (readString rest).map fun (s, rest) => (.string s, rest)
    | '[' :: rest =>
      match skipBlanks rest with
      | ']' :: rest => some (.array [], rest)
      | rest => (readItems fuel rest).map fun (items, rest) => (.array items, rest)
    | '{' :: rest =>
      match skipBlanks rest with
      | '}' :: rest => some (.object [], rest)
      | rest => (readFields fuel rest).map fun (fields, rest) => (.object fields, rest)
    | rest => readNumber rest

/-- The items of an array up to its closing bracket, at least one, and the rest. -/
def readItems : Nat → List Char → Option (List Written × List Char)
  | 0, _ => none
  | fuel + 1, cs => do
    let (item, rest) ← readValue fuel cs
    match skipBlanks rest with
    | ',' :: rest =>
      let (items, rest) ← readItems fuel rest
      return (item :: items, rest)
    | ']' :: rest => return ([item], rest)
    | _ => none

/-- The fields of an object up to its closing brace, at least one, and the rest. -/
def readFields : Nat → List Char → Option (List (Option String × Written) × List Char)
  | 0, _ => none
  | fuel + 1, cs =>
    match skipBlanks cs with
    | '"' :: rest => do
      let (name, rest) ← readString rest
      match skipBlanks rest with
      | ':' :: rest =>
        let (value, rest) ← readValue fuel rest
        match skipBlanks rest with
        | ',' :: rest =>
          let (fields, rest) ← readFields fuel rest
          return ((name, value) :: fields, rest)
        | '}' :: rest => return ([(name, value)], rest)
        | _ => none
      | _ => none
    | _ => none

end

/-- Reads a whole text. Every step takes at least one character, so twice the length bounds the steps. -/
def Written.read? (s : String) : Option Written :=
  let cs := s.toList
  match readValue (2 * cs.length + 2) cs with
  | some (value, rest) => if (skipBlanks rest).isEmpty then some value else none
  | none => none

mutual

/-- The value that a text denotes, if arrays and objects nest to less than `depth` levels. The last of
repeated fields counts. -/
def Written.value? (depth : Nat) : Written → Option Json
  | .null => some .null
  | .bool b => some (.bool b)
  | .number value => value.map .number
  | .string value => value.map .string
  | .array items => if depth ≤ 1 then none else (Written.values? (depth - 1) items).map .array
  | .object fields =>
    if depth ≤ 1 then none
    else (Written.fieldValues? (depth - 1) fields).map fun fields => .object (Entries.ofList fields)

def Written.values? (depth : Nat) : List Written → Option (List Json)
  | [] => some []
  | item :: rest => do
    let value ← Written.value? depth item
    return value :: (← Written.values? depth rest)

def Written.fieldValues? (depth : Nat) : List (Option String × Written) → Option (List (String × Json))
  | [] => some []
  | (name, item) :: rest => do
    let name ← name
    let value ← Written.value? depth item
    return (name, value) :: (← Written.fieldValues? depth rest)

end

def depthMax : Nat := 128

def read? (s : String) : Option Json := (Written.read? s).bind (Written.value? depthMax)

mutual

def toWritten : Json → Written
  | .null => .null
  | .bool b => .bool b
  | .number n => .number (some n)
  | .string s => .string (some s)
  | .array items => .array (toWrittenItems items)
  | .object fields => .object (toWrittenFields fields)

def toWrittenItems : List Json → List Written
  | [] => []
  | item :: rest => toWritten item :: toWrittenItems rest

def toWrittenFields : List (String × Json) → List (Option String × Written)
  | [] => []
  | (name, item) :: rest => (some name, toWritten item) :: toWrittenFields rest

end

end EntityStore.Json
