import EntityStore.Text.Hex
/-!
# Escaped strings

The transport form of string operands: backslashes and double quotes follow a backslash, and control
characters are written `\uXXXX`. Main statement: `unescape_escape`.
-/
namespace EntityStore.Filter

open EntityStore.Text

def isControl (c : Char) : Bool := c.toNat < 0x20 || (0x7F ≤ c.toNat && c.toNat ≤ 0x9F)

def escapeChar (c : Char) : List Char :=
  if c == '\\' then ['\\', '\\']
  else if c == '"' then ['\\', '"']
  else if isControl c then '\\' :: 'u' :: hexDigits 4 c.toNat
  else [c]

def escape (cs : List Char) : List Char := cs.flatMap escapeChar

/-- The character that a backslash and a letter stand for. -/
def letterEscape? (c : Char) : Option Char :=
  if c == '\\' || c == '\x27' || c == '"' || c == '/' then some c
  else if c == 'b' then some (Char.ofNat 8)
  else if c == 'f' then some (Char.ofNat 12)
  else if c == 'n' then some (Char.ofNat 10)
  else if c == 'r' then some (Char.ofNat 13)
  else if c == 't' then some (Char.ofNat 9)
  else none

/-- The control character of an escape by number; other characters have none. -/
def numericEscape? (a b c d : Char) : Option Char :=
  match hexNumber? [a, b, c, d] with
  | some n => if isControl (Char.ofNat n) && (Char.ofNat n).toNat == n then some (Char.ofNat n) else none
  | none => none

/-- Decodes a transport form; a doubled double quote stands for one. -/
def unescape? : List Char → Option (List Char)
  | [] => some []
  | '\\' :: 'u' :: a :: b :: c :: d :: rest => do
    let ch ← numericEscape? a b c d
    return ch :: (← unescape? rest)
  | '\\' :: c :: rest => do
    let ch ← letterEscape? c
    return ch :: (← unescape? rest)
  | ['\\'] => none
  | '"' :: '"' :: rest => (unescape? rest).map ('"' :: ·)
  | c :: rest => (unescape? rest).map (c :: ·)

theorem numericEscape?_toNat {c : Char} (h : isControl c = true) {x y z w : Char}
    (hd : hexDigits 4 c.toNat = [x, y, z, w]) : numericEscape? x y z w = some c := by
  have hlt : c.toNat < 65536 := by
    simp only [isControl, Bool.or_eq_true, Bool.and_eq_true, decide_eq_true_eq] at h
    omega
  have hn := hexNumber?_hexDigits_four hlt
  rw [hd] at hn
  simp [numericEscape?, hn, Char.ofNat_toNat, h]

/-- What is escaped first decodes first, whatever follows it. -/
theorem unescape?_escapeChar (c : Char) (rest : List Char) :
    unescape? (escapeChar c ++ rest) = (unescape? rest).map (c :: ·) := by
  unfold escapeChar
  split
  · rename_i h
    obtain rfl : c = '\\' := by simpa using h
    cases hr : unescape? rest <;> simp [unescape?, letterEscape?, hr]
  · rename_i hb
    split
    · rename_i h
      obtain rfl : c = '"' := by simpa using h
      cases hr : unescape? rest <;> simp [unescape?, letterEscape?, hr]
    · rename_i hq
      split
      · rename_i hc
        obtain ⟨x, y, z, w, hd⟩ : ∃ x y z w, hexDigits 4 c.toNat = [x, y, z, w] := by
          simp [hexDigits]
        have hn := numericEscape?_toNat hc hd
        cases hr : unescape? rest <;> simp [hd, unescape?, hn, hr]
      · have h₁ : c ≠ '\\' := by simpa using hb
        have h₂ : c ≠ '"' := by simpa using hq
        rw [List.singleton_append, unescape?.eq_def]
        split <;> simp_all

theorem unescape_escape (cs : List Char) : unescape? (escape cs) = some cs := by
  induction cs with
  | nil => rfl
  | cons c rest ih =>
    rw [escape, List.flatMap_cons, unescape?_escapeChar]
    rw [escape] at ih
    rw [ih]
    rfl

end EntityStore.Filter
