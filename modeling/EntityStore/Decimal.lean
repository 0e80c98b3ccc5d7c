/-!
# Decimal numerals

Reading integers and real numerals from their decimal text. Main statements: `ofDigits_toDigits`,
`readInt?_toString`.
-/
namespace EntityStore.Decimal

def isDigits (cs : List Char) : Bool := !cs.isEmpty && cs.all Char.isDigit

def ofDigits (cs : List Char) : Nat := Nat.ofDigitChars 10 cs 0

/-- A natural number with an optional plus sign. -/
def readNat? (cs : List Char) : Option Nat :=
  let digits := match cs with
    | '+' :: rest => rest
    | _ => cs
  if isDigits digits then some (ofDigits digits) else none

def readInt? : List Char → Option Int
  | '-' :: digits => if isDigits digits then some (-(ofDigits digits : Int)) else none
  | cs => (readNat? cs).map Int.ofNat

def tenTo (n : Nat) : Nat := Nat.pow 10 n

def fitsInt64 (n : Int) : Bool := -9223372036854775808 ≤ n && n ≤ 9223372036854775807

def fitsUInt64 (n : Nat) : Bool := n ≤ 18446744073709551615

def readInt64? (s : String) : Option Int := (readInt? s.toList).filter fitsInt64

/-- The real number `digits * 10 ^ exponent`, negated if `negative`. -/
structure Numeral where
  negative : Bool
  digits : Nat
  exponent : Int
  deriving DecidableEq, Repr

/-- The digits at the front of a text, and the rest. -/
def spanDigits (cs : List Char) : List Char × List Char :=
  (cs.takeWhile Char.isDigit, cs.dropWhile Char.isDigit)

/-- An optional sign and whether it is a minus, and the rest. -/
def readSign : List Char → Bool × List Char
  | '-' :: rest => (true, rest)
  | '+' :: rest => (false, rest)
  | cs => (false, cs)

/-- The exponent at the front of a text, if its letter comes first, and the rest; none if the letter has no
digits after it. -/
def readExponent? : List Char → Option (Option Int × List Char)
  | [] => some (none, [])
  | c :: rest =>
    if c == 'e' || c == 'E' then
      let (negative, rest) := readSign rest
      let (digits, rest) := spanDigits rest
      if digits.isEmpty then none
      else
        let n : Int := ofDigits digits
        some (some (if negative then -n else n), rest)
    else some (none, c :: rest)

/-- A real numeral: an optional sign, digits with an optional point (at least one digit), and an optional
exponent. -/
def readNumeral? (cs : List Char) : Option Numeral :=
  let (negative, rest) := readSign cs
  let (whole, rest) := spanDigits rest
  let (fraction, rest) := match rest with
    | '.' :: more => spanDigits more
    | _ => ([], rest)
  if whole.isEmpty && fraction.isEmpty then none
  else
    match readExponent? rest with
    | some (exponent, []) => some ⟨negative, ofDigits (whole ++ fraction), exponent.getD 0 - fraction.length⟩
    | _ => none

theorem ofDigits_toDigits (n : Nat) : ofDigits (Nat.toDigits 10 n) = n :=
  Nat.ofDigitChars_ten_toDigits

theorem isDigits_toDigits (n : Nat) : isDigits (Nat.toDigits 10 n) = true := by
  simp only [isDigits, Bool.and_eq_true, Bool.not_eq_true', List.isEmpty_eq_false_iff, ne_eq,
    Nat.toDigits_ne_nil, not_false_eq_true, List.all_eq_true, true_and]
  exact fun c hc => Nat.isDigit_of_mem_toDigits (by decide) (by decide) hc

theorem toList_toString_nat (n : Nat) : (toString n).toList = Nat.toDigits 10 n := by
  rw [Nat.toString_eq_ofList_toDigits, String.toList_ofList]

theorem readNat?_toString (n : Nat) : readNat? (toString n).toList = some n := by
  have hd := isDigits_toDigits n
  rw [toList_toString_nat]
  unfold readNat?
  split
  · rename_i rest heq
    rw [heq] at hd
    simp [isDigits] at hd
  · rw [if_pos hd, ofDigits_toDigits]

theorem readInt?_toString (n : Int) : readInt? (toString n).toList = some n := by
  cases n with
  | ofNat n =>
    have h : (toString (Int.ofNat n)).toList = Nat.toDigits 10 n := toList_toString_nat n
    have hd := isDigits_toDigits n
    have hr := readNat?_toString n
    rw [toList_toString_nat] at hr
    rw [h]
    unfold readInt?
    split
    · rename_i rest heq
      rw [heq] at hd
      simp [isDigits] at hd
    · rw [hr]; rfl
  | negSucc n =>
    have h : (toString (Int.negSucc n)).toList = '-' :: Nat.toDigits 10 (n + 1) := by
      change ("-" ++ toString (n + 1)).toList = _
      rw [String.toList_append, toList_toString_nat]
      rfl
    rw [h]
    simp only [readInt?, isDigits_toDigits, if_true, ofDigits_toDigits]
    rfl

end EntityStore.Decimal
