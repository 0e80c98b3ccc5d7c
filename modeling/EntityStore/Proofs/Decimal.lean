import EntityStore.Decimal
import Mathlib.Algebra.Order.Ring.Nat

/-!
# Digits and signs

Decimal digits and the numbers they denote. Digits in equal number compare as their numbers, and an integer is a sign
and digits. Main statements: `ofDigits_lt`, `append_lt_append_iff`, `ofDigits_inj` and `readInt?_eq_some_iff`.
-/
namespace EntityStore.Decimal

variable {c : Char} {cs ds : List Char}

theorem digit_le (h : c.isDigit = true) : c.toNat - '0'.toNat ≤ 9 := by
  have hrange : 48 ≤ c.toNat ∧ c.toNat ≤ 57 := Char.isDigit_iff_toNat.mp h
  have hzero : '0'.toNat = 48 := rfl
  omega

theorem ofDigits_cons (c : Char) (cs : List Char) :
    ofDigits (c :: cs) = 10 ^ cs.length * (c.toNat - '0'.toNat) + ofDigits cs := by
  rw [ofDigits, Nat.ofDigitChars_cons, Nat.ofDigitChars_eq_ofDigitChars_zero, Nat.mul_zero, Nat.zero_add]
  rfl

theorem ofDigits_lt (h : ∀ c ∈ cs, c.isDigit = true) : ofDigits cs < 10 ^ cs.length := by
  induction cs with
  | nil => decide
  | cons c cs ih =>
    obtain ⟨hc, hcs⟩ := List.forall_mem_cons.mp h
    have hlt : ofDigits cs < 10 ^ cs.length := ih hcs
    have hmul : 10 ^ cs.length * (c.toNat - '0'.toNat) ≤ 10 ^ cs.length * 9 := Nat.mul_le_mul_left _ (digit_le hc)
    rw [ofDigits_cons, List.length_cons, Nat.pow_succ]
    omega

theorem digit_lt_iff {d : Char} (hc : c.isDigit = true) (hd : d.isDigit = true) :
    c < d ↔ c.toNat - '0'.toNat < d.toNat - '0'.toNat := by
  have hc : 48 ≤ c.toNat ∧ c.toNat ≤ 57 := Char.isDigit_iff_toNat.mp hc
  have hd : 48 ≤ d.toNat ∧ d.toNat ≤ 57 := Char.isDigit_iff_toNat.mp hd
  have hzero : '0'.toNat = 48 := rfl
  have hlt : c < d ↔ c.toNat < d.toNat := Iff.rfl
  rw [hlt, hzero]
  omega

theorem digit_eq_iff {d : Char} (hc : c.isDigit = true) (hd : d.isDigit = true) :
    c = d ↔ c.toNat - '0'.toNat = d.toNat - '0'.toNat := by
  have hc : 48 ≤ c.toNat ∧ c.toNat ≤ 57 := Char.isDigit_iff_toNat.mp hc
  have hd : 48 ≤ d.toNat ∧ d.toNat ≤ 57 := Char.isDigit_iff_toNat.mp hd
  have hzero : '0'.toNat = 48 := rfl
  have heq : c = d ↔ c.toNat = d.toNat := Char.toNat_inj.symm
  rw [heq, hzero]
  omega

/-- The higher digit decides, and below equal digits the rest. -/
theorem ofDigits_cons_lt_iff {d : Char} (hcs : ∀ c ∈ cs, c.isDigit = true) (hds : ∀ d ∈ ds, d.isDigit = true)
    (hlength : cs.length = ds.length) (hc : c.isDigit = true) (hd : d.isDigit = true) :
    ofDigits (c :: cs) < ofDigits (d :: ds) ↔ c < d ∨ c = d ∧ ofDigits cs < ofDigits ds := by
  have hclt := ofDigits_lt hcs
  have hdlt := ofDigits_lt hds
  rw [digit_lt_iff hc hd, digit_eq_iff hc hd, ofDigits_cons, ofDigits_cons, hlength]
  rw [hlength] at hclt
  generalize c.toNat - '0'.toNat = x
  generalize d.toNat - '0'.toNat = y
  rcases Nat.lt_trichotomy x y with hlt | rfl | hgt
  · have hmul := Nat.mul_le_mul_left (10 ^ ds.length) (Nat.succ_le_of_lt hlt)
    rw [Nat.mul_succ] at hmul
    omega
  · omega
  · have hmul := Nat.mul_le_mul_left (10 ^ ds.length) (Nat.succ_le_of_lt hgt)
    rw [Nat.mul_succ] at hmul
    omega

/-- Texts that begin with equally many digits compare by the numbers of these, and then by what follows them. -/
theorem append_lt_append_iff (hcs : ∀ c ∈ cs, c.isDigit = true) (hds : ∀ d ∈ ds, d.isDigit = true)
    (hlength : cs.length = ds.length) (as bs : List Char) :
    cs ++ as < ds ++ bs ↔ ofDigits cs < ofDigits ds ∨ cs = ds ∧ as < bs := by
  induction cs generalizing ds with
  | nil =>
    obtain rfl : ds = [] := List.eq_nil_of_length_eq_zero hlength.symm
    simp
  | cons c cs ih =>
    cases ds with
    | nil => cases hlength
    | cons d ds =>
      obtain ⟨hc, hcs⟩ := List.forall_mem_cons.mp hcs
      obtain ⟨hd, hds⟩ := List.forall_mem_cons.mp hds
      have hlength : cs.length = ds.length := Nat.succ.inj hlength
      rw [List.cons_append, List.cons_append, List.cons_lt_cons_iff, ih hcs hds hlength,
        ofDigits_cons_lt_iff hcs hds hlength hc hd, List.cons.injEq]
      tauto

theorem ofDigits_inj (hcs : ∀ c ∈ cs, c.isDigit = true) (hds : ∀ d ∈ ds, d.isDigit = true)
    (hlength : cs.length = ds.length) (h : ofDigits cs = ofDigits ds) : cs = ds := by
  have hlt := append_lt_append_iff hcs hds hlength [] []
  have hgt := append_lt_append_iff hds hcs hlength.symm [] []
  simp only [List.append_nil, h, Nat.lt_irrefl, false_or, List.not_lt_nil, and_false, iff_false] at hlt hgt
  exact List.le_antisymm hgt hlt

/-! ## Signs -/

theorem toList_toString_int (n : Int) :
    (toString n).toList = (if n < 0 then ['-'] else []) ++ Nat.toDigits 10 n.natAbs := by
  cases n with
  | ofNat n =>
    have hdigits : (toString (Int.ofNat n)).toList = Nat.toDigits 10 n := toList_toString_nat n
    have hsign : ¬ Int.ofNat n < 0 := by simp
    rw [hdigits, if_neg hsign]
    rfl
  | negSucc n =>
    change ("-" ++ toString (n + 1)).toList = _
    rw [String.toList_append, toList_toString_nat]
    simp [Int.negSucc_lt_zero]

theorem isDigit_of_mem_toDigits {n : Nat} {c : Char} (h : c ∈ Nat.toDigits 10 n) : c.isDigit = true :=
  Nat.isDigit_of_mem_toDigits (by decide) (by decide) h

/-- The sign before an integer, if there is one. -/
inductive Sign where
  | absent
  | plus
  | minus
  deriving DecidableEq, Repr

namespace Sign

def chars : Sign → List Char
  | absent => []
  | plus => ['+']
  | minus => ['-']

/-- A magnitude with its sign. -/
def apply : Sign → Nat → Int
  | minus, n => -n
  | _, n => n

end Sign

variable {digits : List Char} {n : Int}

theorem isDigit_of_mem (h : isDigits digits = true) : ∀ c ∈ digits, c.isDigit = true := by
  simp only [isDigits, Bool.and_eq_true, List.all_eq_true] at h
  exact h.2

theorem exists_of_readNat? {m : Nat} (h : readNat? cs = some m) :
    ∃ digits, isDigits digits = true ∧ m = ofDigits digits ∧ (cs = '+' :: digits ∨ cs = digits) := by
  simp only [readNat?] at h
  split at h
  · obtain ⟨hdigits, hvalue⟩ := Option.ite_none_right_eq_some.mp h
    exact ⟨_, hdigits, (Option.some.inj hvalue).symm, .inl rfl⟩
  · obtain ⟨hdigits, hvalue⟩ := Option.ite_none_right_eq_some.mp h
    exact ⟨cs, hdigits, (Option.some.inj hvalue).symm, .inr rfl⟩

/-- An integer is a sign and digits, and nothing else is. -/
theorem readInt?_eq_some_iff : readInt? cs = some n ↔
    ∃ (sign : Sign) (digits : List Char), isDigits digits = true ∧ cs = sign.chars ++ digits ∧
      n = sign.apply (ofDigits digits) := by
  constructor
  · intro h
    unfold readInt? at h
    split at h
    · rename_i digits
      split at h
      · rename_i hdigits
        cases h
        exact ⟨.minus, digits, hdigits, rfl, rfl⟩
      · cases h
    · obtain ⟨m, hm, rfl⟩ := Option.map_eq_some_iff.mp h
      obtain ⟨digits, hdigits, rfl, rfl | rfl⟩ := exists_of_readNat? hm
      · exact ⟨.plus, digits, hdigits, rfl, rfl⟩
      · exact ⟨.absent, _, hdigits, rfl, rfl⟩
  · rintro ⟨sign, digits, hdigits, rfl, rfl⟩
    cases sign with
    | minus => simp [readInt?, Sign.chars, Sign.apply, hdigits]
    | plus => simp [readInt?, readNat?, Sign.chars, Sign.apply, hdigits]
    | absent =>
      -- the first digit is no sign
      have hfirst : ∀ c ∈ digits.head?, c ≠ '-' ∧ c ≠ '+' := by
        intro c hc
        have hdigit := isDigit_of_mem hdigits c (List.mem_of_mem_head? hc)
        constructor <;>
        · rintro rfl
          cases hdigit
      unfold readInt? readNat?
      cases digits with
      | nil => cases hdigits
      | cons c digits =>
        obtain ⟨hminus, hplus⟩ := hfirst c rfl
        simp [Sign.chars, Sign.apply, hminus, hplus, hdigits]

end EntityStore.Decimal
