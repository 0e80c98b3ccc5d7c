/-!
# Hexadecimal digits

Numbers in hexadecimal notation. Main statement: `hexNumber?_hexDigits_four`.
-/
namespace EntityStore.Text

/-- The value of a hexadecimal digit in either case. -/
def hexValue? (c : Char) : Option Nat :=
  let n := c.toNat
  if 0x30 ≤ n && n ≤ 0x39 then some (n - 0x30)
  else if 0x41 ≤ n && n ≤ 0x46 then some (n - 0x37)
  else if 0x61 ≤ n && n ≤ 0x66 then some (n - 0x57)
  else none

/-- The upper-case digit of a value below sixteen. -/
def hexDigit (n : Nat) : Char := Char.ofNat (if n < 10 then n + 0x30 else n + 0x37)

theorem hexValue?_hexDigit {n : Nat} (h : n < 16) : hexValue? (hexDigit n) = some n := by
  have : ∀ n : Fin 16, hexValue? (hexDigit n) = some n.val := by decide
  exact this ⟨n, h⟩

/-- The value of hexadecimal digits, the highest first. -/
def hexNumber? (digits : List Char) : Option Nat :=
  digits.foldlM (fun n c => (hexValue? c).map (n * 16 + ·)) 0

/-- The last `count` upper-case digits of a number, the highest first. -/
def hexDigits : Nat → Nat → List Char
  | 0, _ => []
  | count + 1, n => hexDigits count (n / 16) ++ [hexDigit (n % 16)]

theorem hexNumber?_nil : hexNumber? [] = some 0 := rfl

theorem hexNumber?_append_hexDigit (cs : List Char) (n : Nat) :
    hexNumber? (cs ++ [hexDigit (n % 16)]) = (hexNumber? cs).map fun m => m * 16 + n % 16 := by
  have hv : hexValue? (hexDigit (n % 16)) = some (n % 16) := hexValue?_hexDigit (by omega)
  simp only [hexNumber?, List.foldlM_append, List.foldlM_cons, List.foldlM_nil, hv]
  cases List.foldlM (fun n c => (hexValue? c).map (n * 16 + ·)) 0 cs <;> rfl

/-- Four digits hold every number below 65536. -/
theorem hexNumber?_hexDigits_four {n : Nat} (h : n < 65536) : hexNumber? (hexDigits 4 n) = some n := by
  simp only [hexDigits, hexNumber?_append_hexDigit, hexNumber?_nil, Option.map_some, Option.some.injEq]
  omega

end EntityStore.Text
