/-!
# UTF-8

Texts as octets. Offsets into a text count octets, so `byteLength` measures how far a cut lies; reading
octets back replaces each maximal piece that begins no character by U+FFFD. Main statement: `decode_encode`.
-/
namespace EntityStore.Text

def byteLength : List Char → Nat
  | [] => 0
  | c :: cs => c.utf8Size + byteLength cs

@[simp] theorem byteLength_nil : byteLength [] = 0 := rfl

@[simp] theorem byteLength_cons (c : Char) (cs : List Char) :
    byteLength (c :: cs) = c.utf8Size + byteLength cs := rfl

@[simp] theorem byteLength_append (a b : List Char) :
    byteLength (a ++ b) = byteLength a + byteLength b := by
  induction a with
  | nil => simp
  | cons c a ih => simp [ih, Nat.add_assoc]

theorem utf8ByteSize_ofList (cs : List Char) : (String.ofList cs).utf8ByteSize = byteLength cs := by
  induction cs with
  | nil => exact String.utf8ByteSize_empty
  | cons c cs ih =>
    rw [String.ofList_cons, String.utf8ByteSize_append, String.utf8ByteSize_singleton, ih, byteLength_cons]

def octetsOfNat (n : Nat) : List Nat :=
  if n < 0x80 then [n]
  else if n < 0x800 then [0xC0 + n / 64, 0x80 + n % 64]
  else if n < 0x10000 then [0xE0 + n / 4096, 0x80 + n / 64 % 64, 0x80 + n % 64]
  else [0xF0 + n / 262144, 0x80 + n / 4096 % 64, 0x80 + n / 64 % 64, 0x80 + n % 64]

def encode (cs : List Char) : List Nat := cs.flatMap fun c => octetsOfNat c.toNat

/-- Stands for octets that begin no character. -/
def replacement : Char := Char.ofNat 0xFFFD

def isTail (b : Nat) : Bool := 0x80 ≤ b && b ≤ 0xBF

/-- The least and the greatest octet that may follow the first octet `b` of three or four. -/
def secondRange (b : Nat) : Nat × Nat :=
  if b == 0xE0 then (0xA0, 0xBF)
  else if b == 0xED then (0x80, 0x9F)
  else if b == 0xF0 then (0x90, 0xBF)
  else if b == 0xF4 then (0x80, 0x8F)
  else (0x80, 0xBF)

/-- May `c` follow the first octet `b` of three or four? -/
def isSecond (b c : Nat) : Bool := (secondRange b).1 ≤ c && c ≤ (secondRange b).2

/-- Reads octets; each maximal piece that begins no character gives one replacement. -/
def decode : List Nat → List Char
  | [] => []
  | b :: rest =>
    if b < 0x80 then Char.ofNat b :: decode rest
    else if 0xC2 ≤ b && b ≤ 0xDF then
      match rest with
      | c :: rest' =>
        if isTail c then Char.ofNat ((b - 0xC0) * 64 + (c - 0x80)) :: decode rest'
        else replacement :: decode (c :: rest')
      | [] => [replacement]
    else if 0xE0 ≤ b && b ≤ 0xEF then
      match rest with
      | c :: d :: rest' =>
        if !isSecond b c then replacement :: decode (c :: d :: rest')
        else if !isTail d then replacement :: decode (d :: rest')
        else Char.ofNat ((b - 0xE0) * 4096 + (c - 0x80) * 64 + (d - 0x80)) :: decode rest'
      | [c] => if isSecond b c then [replacement] else replacement :: decode [c]
      | [] => [replacement]
    else if 0xF0 ≤ b && b ≤ 0xF4 then
      match rest with
      | c :: d :: e :: rest' =>
        if !isSecond b c then replacement :: decode (c :: d :: e :: rest')
        else if !isTail d then replacement :: decode (d :: e :: rest')
        else if !isTail e then replacement :: decode (e :: rest')
        else Char.ofNat ((b - 0xF0) * 262144 + (c - 0x80) * 4096 + (d - 0x80) * 64 + (e - 0x80)) ::
          decode rest'
      | [c, d] =>
        if !isSecond b c then replacement :: decode [c, d]
        else if !isTail d then replacement :: decode [d]
        else [replacement]
      | [c] => if isSecond b c then [replacement] else replacement :: decode [c]
      | [] => [replacement]
    else replacement :: decode rest
termination_by octets => octets.length

theorem decode_octetsOfNat {n : Nat} (h : n.isValidChar) (rest : List Nat) :
    decode (octetsOfNat n ++ rest) = Char.ofNat n :: decode rest := by
  have hn : n < 0xD800 ∨ 0xDFFF < n ∧ n < 0x110000 := h
  unfold octetsOfNat
  split
  · rename_i hlt
    rw [List.cons_append, decode.eq_def]
    simp only [hlt, if_true, List.nil_append]
  · split
    · rw [List.cons_append, decode.eq_def]
      have h₁ : ¬ (0xC0 + n / 64 < 0x80) := by omega
      have h₂ : (0xC2 ≤ 0xC0 + n / 64 && 0xC0 + n / 64 ≤ 0xDF) = true := by
        simp only [Bool.and_eq_true, decide_eq_true_eq]; omega
      have h₃ : isTail (0x80 + n % 64) = true := by
        simp only [isTail, Bool.and_eq_true, decide_eq_true_eq]; omega
      simp only [h₁, h₂, h₃, if_false, if_true, List.cons_append, List.nil_append]
      rw [show (0xC0 + n / 64 - 0xC0) * 64 + (0x80 + n % 64 - 0x80) = n by omega]
    · split
      · rw [List.cons_append, decode.eq_def]
        have h₁ : ¬ (0xE0 + n / 4096 < 0x80) := by omega
        have h₂ : (0xC2 ≤ 0xE0 + n / 4096 && 0xE0 + n / 4096 ≤ 0xDF) = false := by
          simp only [Bool.and_eq_false_iff, decide_eq_false_iff_not]; omega
        have h₃ : (0xE0 ≤ 0xE0 + n / 4096 && 0xE0 + n / 4096 ≤ 0xEF) = true := by
          simp only [Bool.and_eq_true, decide_eq_true_eq]; omega
        have h₄ : isSecond (0xE0 + n / 4096) (0x80 + n / 64 % 64) = true := by
          simp only [isSecond, secondRange, beq_iff_eq]
          repeat' split
          all_goals simp only [Bool.and_eq_true, decide_eq_true_eq]; omega
        have h₅ : isTail (0x80 + n % 64) = true := by
          simp only [isTail, Bool.and_eq_true, decide_eq_true_eq]; omega
        simp only [h₁, h₂, h₃, h₄, h₅, if_false, if_true, List.cons_append, List.nil_append,
          Bool.not_true, Bool.false_eq_true]
        rw [show (0xE0 + n / 4096 - 0xE0) * 4096 + (0x80 + n / 64 % 64 - 0x80) * 64 +
          (0x80 + n % 64 - 0x80) = n by omega]
      · rw [List.cons_append, decode.eq_def]
        have h₁ : ¬ (0xF0 + n / 262144 < 0x80) := by omega
        have h₂ : (0xC2 ≤ 0xF0 + n / 262144 && 0xF0 + n / 262144 ≤ 0xDF) = false := by
          simp only [Bool.and_eq_false_iff, decide_eq_false_iff_not]; omega
        have h₃ : (0xE0 ≤ 0xF0 + n / 262144 && 0xF0 + n / 262144 ≤ 0xEF) = false := by
          simp only [Bool.and_eq_false_iff, decide_eq_false_iff_not]; omega
        have h₄ : (0xF0 ≤ 0xF0 + n / 262144 && 0xF0 + n / 262144 ≤ 0xF4) = true := by
          simp only [Bool.and_eq_true, decide_eq_true_eq]; omega
        have h₅ : isSecond (0xF0 + n / 262144) (0x80 + n / 4096 % 64) = true := by
          simp only [isSecond, secondRange, beq_iff_eq]
          repeat' split
          all_goals simp only [Bool.and_eq_true, decide_eq_true_eq]; omega
        have h₆ : isTail (0x80 + n / 64 % 64) = true := by
          simp only [isTail, Bool.and_eq_true, decide_eq_true_eq]; omega
        have h₇ : isTail (0x80 + n % 64) = true := by
          simp only [isTail, Bool.and_eq_true, decide_eq_true_eq]; omega
        simp only [h₁, h₂, h₃, h₄, h₅, h₆, h₇, if_false, if_true, List.cons_append, List.nil_append,
          Bool.not_true, Bool.false_eq_true]
        rw [show (0xF0 + n / 262144 - 0xF0) * 262144 + (0x80 + n / 4096 % 64 - 0x80) * 4096 +
          (0x80 + n / 64 % 64 - 0x80) * 64 + (0x80 + n % 64 - 0x80) = n by omega]

theorem decode_encode (cs : List Char) : decode (encode cs) = cs := by
  induction cs with
  | nil => simp [encode, decode]
  | cons c rest ih =>
    have h : c.toNat.isValidChar := c.valid
    rw [encode, List.flatMap_cons, decode_octetsOfNat h, Char.ofNat_toNat]
    exact congrArg (c :: ·) ih

end EntityStore.Text
