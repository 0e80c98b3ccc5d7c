import EntityStore.Text.CaseTables
/-!
# Lower case

Lower-casing of texts by the Unicode rules: every character has its own lower-case form, except that a
capital sigma at the end of a word gives the final form. Main statement: `occursIn_iff`.
-/
namespace EntityStore.Text

/-- The lower-case form of one character, without regard to its neighbours. -/
def lowerChar (c : Char) : List Char :=
  let n := c.toNat
  if n < 0x80 then [if 0x41 ≤ n && n ≤ 0x5A then Char.ofNat (n + 0x20) else c]
  else if n == 0x130 then [Char.ofNat 0x69, Char.ofNat 0x307]
  else
    match lowerRuns.find? fun r => r.first ≤ n && n ≤ r.last && (n - r.first) % r.stride == 0 with
    | some r => [Char.ofNat (n + r.offset).toNat]
    | none => [c]

def inRanges (ranges : List (Nat × Nat)) (c : Char) : Bool :=
  ranges.any fun r => r.1 ≤ c.toNat && c.toNat ≤ r.2

/-- Is the first character that is not case-ignorable a cased one? -/
def startsCased (cs : List Char) : Bool :=
  match cs.dropWhile (inRanges caseIgnorableRanges) with
  | c :: _ => inRanges casedRanges c
  | [] => false

def capitalSigma : Char := Char.ofNat 0x3A3

def smallSigma : Char := Char.ofNat 0x3C3

def finalSigma : Char := Char.ofNat 0x3C2

/-- Lower-cases a text that follows `before` (in reverse); a capital sigma is final when a cased character
stands before it and none after it, case-ignorable ones apart. -/
def lowerFrom (before : List Char) : List Char → List Char
  | [] => []
  | c :: rest =>
    (if c == capitalSigma then
      [if startsCased before && !startsCased rest then finalSigma else smallSigma]
    else lowerChar c) ++ lowerFrom (c :: before) rest

def lower (cs : List Char) : List Char := lowerFrom [] cs

/-- Does `needle` occur in a text as one piece? -/
def occursIn (needle : List Char) : List Char → Bool
  | [] => needle.isEmpty
  | c :: rest => needle.isPrefixOf (c :: rest) || occursIn needle rest

theorem occursIn_iff {needle cs : List Char} : occursIn needle cs = true ↔ needle <:+: cs := by
  induction cs with
  | nil => simp [occursIn]
  | cons c rest ih =>
    rw [occursIn, Bool.or_eq_true, List.isPrefixOf_iff_prefix, ih, List.infix_cons_iff]

end EntityStore.Text
