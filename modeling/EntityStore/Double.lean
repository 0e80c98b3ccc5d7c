import EntityStore.Decimal
/-!
# Double-precision numbers

Binary floating-point numbers of 64 bits by exact integer arithmetic: a finite one is an integer number of
units `2 ^ -1074`, and every operation rounds its exact result once, to the nearest, ties to even. Main
statement: `roundUnits_unitsOf`.
-/
namespace EntityStore

/-- A double-precision number by its bits: a sign, eleven bits of exponent, 52 bits of fraction. -/
structure Double where
  bits : UInt64
  deriving DecidableEq, Repr

namespace Double

def twoTo (n : Nat) : Nat := Nat.pow 2 n

def unitsPerOne : Nat := twoTo 1074

/-- The bits of infinity; greater ones, the sign apart, are those of a NaN. -/
def infinityBits : Nat := 2047 * twoTo 52

/-- The units of a number without sign and with these bits. -/
def unitsOf (bits : Nat) : Nat :=
  if bits / twoTo 52 = 0 then bits else (bits % twoTo 52 + twoTo 52) * twoTo (bits / twoTo 52 - 1)

/-- The bits, without sign, of the number nearest to `num / den` units; infinity if that is too large. -/
def roundUnits (num den : Nat) : Nat :=
  let shift := (num / den).log2 - 52
  let unit := den * twoTo shift
  let whole := num / unit
  let twice := 2 * (num % unit)
  let up := unit < twice || (twice == unit && whole % 2 == 1)
  min infinityBits (shift * twoTo 52 + whole + if up then 1 else 0)

/-- The number with these bits and a sign. -/
def withSign (negative : Bool) (bits : Nat) : Double :=
  ⟨.ofNat (bits + if negative then twoTo 63 else 0)⟩

/-- The number nearest to `num / den` units, with a sign. -/
def ofUnits (negative : Bool) (num den : Nat) : Double := withSign negative (roundUnits num den)

def negative (x : Double) : Bool := twoTo 63 ≤ x.bits.toNat

def unsignedBits (x : Double) : Nat := x.bits.toNat % twoTo 63

def isNaN (x : Double) : Bool := infinityBits < x.unsignedBits

def isFinite (x : Double) : Bool := x.unsignedBits < infinityBits

def magnitude (x : Double) : Nat := unitsOf x.unsignedBits

def units (x : Double) : Int := if x.negative then -(x.magnitude : Int) else x.magnitude

/-- The order of values; a NaN has none. -/
def compare? (x y : Double) : Option Ordering :=
  if x.isNaN || y.isNaN then none else some (compare x.units y.units)

def ofInt (n : Int) : Double := ofUnits (n < 0) (n.natAbs * unitsPerOne) 1

/-- The number nearest to `digits * 10 ^ exponent`. Powers of ten far outside the range of the format are
not computed: their product is infinite or zero. -/
def ofDecimal (negative : Bool) (digits : Nat) (exponent : Int) : Double :=
  if digits = 0 || exponent < -(400 + digits.log2 : Int) then withSign negative 0
  else if 400 < exponent then withSign negative infinityBits
  else ofUnits negative (digits * Decimal.tenTo exponent.toNat * unitsPerOne) (Decimal.tenTo (-exponent).toNat)

def ofNumeral (n : Decimal.Numeral) : Double := ofDecimal n.negative n.digits n.exponent

def abs (x : Double) : Double := withSign false x.unsignedBits

def neg (x : Double) : Double := withSign (!x.negative) x.unsignedBits

def mul (x y : Double) : Double :=
  ofUnits (x.negative != y.negative) (x.magnitude * y.magnitude) unitsPerOne

/-- The quotient of two finite numbers, the second not zero. -/
def div (x y : Double) : Double :=
  ofUnits (x.negative != y.negative) (x.magnitude * unitsPerOne) y.magnitude

/-- The difference of two finite numbers; equal ones differ by plus zero. -/
def sub (x y : Double) : Double :=
  let d := x.units - y.units
  ofUnits (d < 0) d.natAbs 1

/-- The nearest integer of a finite number, a half going away from zero. -/
def round (x : Double) : Double :=
  ofUnits x.negative ((2 * x.magnitude + unitsPerOne) / (2 * unitsPerOne) * unitsPerOne) 1

def lt (x y : Double) : Bool := x.compare? y == some .lt

def le (x y : Double) : Bool := x.compare? y == some .lt || x.compare? y == some .eq

/-! ## Exact results -/

theorem twoTo_succ (n : Nat) : twoTo (n + 1) = twoTo n * 2 := rfl

theorem twoTo_pos (n : Nat) : 0 < twoTo n := Nat.pow_pos (by decide)

theorem twoTo_add (m n : Nat) : twoTo (m + n) = twoTo m * twoTo n := Nat.pow_add 2 m n

theorem log2_eq {n k : Nat} (h₁ : twoTo k ≤ n) (h₂ : n < twoTo (k + 1)) : n.log2 = k := by
  have hn : n ≠ 0 := by have := twoTo_pos k; omega
  have hle : k ≤ n.log2 := (Nat.le_log2 hn).2 h₁
  have hlt : n.log2 < k + 1 := (Nat.log2_lt hn).2 h₂
  omega

/-- A number of 53 bits times a power of two is not changed by rounding. -/
theorem roundUnits_mul_twoTo {m k : Nat} (hm : twoTo 52 ≤ m) (hm' : m < twoTo 53) :
    roundUnits (m * twoTo k) 1 = min infinityBits (k * twoTo 52 + m) := by
  have hk := twoTo_pos k
  have hlog : (m * twoTo k).log2 = 52 + k := by
    apply log2_eq
    · rw [twoTo_add]; exact Nat.mul_le_mul_right _ hm
    · rw [show 52 + k + 1 = 53 + k by omega, twoTo_add]
      exact Nat.mul_lt_mul_of_pos_right hm' hk
  have hne : ¬ 0 = twoTo k := by omega
  simp [roundUnits, hlog, Nat.mul_div_cancel _ hk, hne]

theorem roundUnits_of_lt {m : Nat} (hm : m < twoTo 52) : roundUnits m 1 = m := by
  have hlog : m.log2 - 52 = 0 := by
    rcases Nat.eq_zero_or_pos m with rfl | hpos
    · rfl
    · have : m.log2 < 52 := (Nat.log2_lt (by omega)).2 hm
      omega
  have hone : twoTo 0 = 1 := rfl
  have hle : m ≤ infinityBits := by
    have : twoTo 52 ≤ infinityBits := by decide
    omega
  simp [roundUnits, hlog, hone, Nat.mod_one, Nat.min_eq_right hle]

theorem roundUnits_unitsOf {bits : Nat} (h : bits < infinityBits) : roundUnits (unitsOf bits) 1 = bits := by
  unfold unitsOf
  have hpos := twoTo_pos 52
  split
  · rename_i h0
    exact roundUnits_of_lt ((Nat.div_eq_zero_iff_lt hpos).1 h0)
  · rename_i h0
    have hlt := Nat.mod_lt bits hpos
    have hdiv := Nat.div_add_mod' bits (twoTo 52)
    have h53 : twoTo 53 = twoTo 52 * 2 := twoTo_succ 52
    rw [roundUnits_mul_twoTo (by omega) (by omega)]
    obtain ⟨e, he⟩ : ∃ e, bits / twoTo 52 = e + 1 := Nat.exists_eq_succ_of_ne_zero h0
    rw [he, Nat.succ_mul] at hdiv
    rw [he, Nat.add_sub_cancel, Nat.min_eq_right (by omega)]
    omega

end Double

end EntityStore
