import EntityStore.Filter.Fault
import EntityStore.Text.Blank
import EntityStore.Text.Utf8
/-!
# Tokens

Cutting a filter text into parentheses, commas, words and quoted strings, each with its offset in octets.
-/
namespace EntityStore.Filter

open EntityStore.Text

inductive TokenKind where
  | openParen
  | closeParen
  | comma
  /-- A name, a keyword, an operator or a number. -/
  | word (text : String)
  /-- A quoted string; a doubled quote is one, and escapes are as written. -/
  | quoted (body : String)
  /-- A word with a quoted string directly after it. -/
  | tagged (tag body : String)
  deriving DecidableEq, Repr

structure Token where
  kind : TokenKind
  position : Nat
  deriving DecidableEq, Repr

def quote : Char := '\x27'

/-- Characters that form words: all but blanks, parentheses, commas and quotes. -/
def isWordChar (c : Char) : Bool := !isBlank c && c != '(' && c != ')' && c != ',' && c != quote

/-- A quoted string after its opening quote: its body, the octets it takes, and the rest. A backslash keeps the
character after it from closing the string; none if no quote closes it. -/
def readQuoted : List Char → Option (List Char × Nat × List Char)
  | [] => none
  | '\x27' :: '\x27' :: rest => (readQuoted rest).map fun (body, size, rest) => (quote :: body, size + 2, rest)
  | '\x27' :: rest => some ([], 1, rest)
  | '\\' :: c :: rest =>
    (readQuoted rest).map fun (body, size, rest) => ('\\' :: c :: body, size + 1 + c.utf8Size, rest)
  | c :: rest => (readQuoted rest).map fun (body, size, rest) => (c :: body, size + c.utf8Size, rest)

theorem length_of_readQuoted {cs body rest : List Char} {size : Nat}
    (h : readQuoted cs = some (body, size, rest)) : rest.length < cs.length := by
  fun_induction readQuoted cs generalizing body size rest with
  | case1 => simp at h
  | case2 _ ih =>
    obtain ⟨⟨b, n, r⟩, hr, he⟩ := Option.map_eq_some_iff.1 h
    cases he
    have := ih hr
    simp only [List.length_cons]; omega
  | case3 => cases h; simp
  | case4 _ _ ih =>
    obtain ⟨⟨b, n, r⟩, hr, he⟩ := Option.map_eq_some_iff.1 h
    cases he
    have := ih hr
    simp only [List.length_cons]; omega
  | case5 _ _ _ _ _ ih =>
    obtain ⟨⟨b, n, r⟩, hr, he⟩ := Option.map_eq_some_iff.1 h
    cases he
    have := ih hr
    simp only [List.length_cons]; omega

theorem length_dropWhile_le (p : Char → Bool) (cs : List Char) : (cs.dropWhile p).length ≤ cs.length :=
  (List.dropWhile_suffix p).length_le

/-- The token of a single mark. -/
def markKind? (c : Char) : Option TokenKind :=
  if c == '(' then some .openParen
  else if c == ')' then some .closeParen
  else if c == ',' then some .comma
  else none

/-- The tokens of a text that starts at the offset `position`. -/
def tokensFrom (position : Nat) (cs : List Char) : Except ParseError (List Token) :=
  match cs with
  | [] => .ok []
  | c :: rest =>
    if isBlank c then tokensFrom (position + c.utf8Size) rest
    else
      match markKind? c with
      | some kind => (tokensFrom (position + c.utf8Size) rest).map (⟨kind, position⟩ :: ·)
      | none =>
        if c == quote then
          match h : readQuoted rest with
          | none => .error (.malformed position .unterminatedString)
          | some (body, size, rest') =>
            have := length_of_readQuoted h
            (tokensFrom (position + 1 + size) rest').map (⟨.quoted (.ofList body), position⟩ :: ·)
        else
          let word := c :: rest.takeWhile isWordChar
          let after := position + byteLength word
          have hle := length_dropWhile_le isWordChar rest
          match hd : rest.dropWhile isWordChar with
          | '\x27' :: rest' =>
            match h : readQuoted rest' with
            | none => .error (.malformed after .unterminatedString)
            | some (body, size, rest'') =>
              have := length_of_readQuoted h
              have : (('\x27' : Char) :: rest').length ≤ rest.length := hd ▸ hle
              (tokensFrom (after + 1 + size) rest'').map
                (⟨.tagged (.ofList word) (.ofList body), position⟩ :: ·)
          | other =>
            have : other.length ≤ rest.length := hd ▸ hle
            (tokensFrom after other).map (⟨.word (.ofList word), position⟩ :: ·)
termination_by cs.length
decreasing_by all_goals simp_all only [List.length_cons]; omega

/-- The tokens of a text. -/
def tokens (text : String) : Except ParseError (List Token) := tokensFrom 0 text.toList

/-- The offset of the first closing parenthesis that nothing opens, after `opened` open ones. -/
def unmatchedClose? (opened : Nat) : List Token → Option Nat
  | [] => none
  | ⟨.openParen, _⟩ :: rest => unmatchedClose? (opened + 1) rest
  | ⟨.closeParen, position⟩ :: rest =>
    match opened with
    | 0 => some position
    | opened + 1 => unmatchedClose? opened rest
  | _ :: rest => unmatchedClose? opened rest

/-- Drops the opening parentheses that are never closed; also returns how many closing ones still wait for
their opening one. -/
def keepClosed : List Token → List Token × Nat
  | [] => ([], 0)
  | ⟨.openParen, position⟩ :: rest =>
    match keepClosed rest with
    | (kept, 0) => (kept, 0)
    | (kept, closing + 1) => (⟨.openParen, position⟩ :: kept, closing)
  | ⟨.closeParen, position⟩ :: rest =>
    let (kept, closing) := keepClosed rest
    (⟨.closeParen, position⟩ :: kept, closing + 1)
  | token :: rest =>
    let (kept, closing) := keepClosed rest
    (token :: kept, closing)

/-- The tokens without the opening parentheses that are never closed, unless a closing one is unmatched. -/
def matchParens (ts : List Token) : Except ParseError (List Token) :=
  match unmatchedClose? 0 ts with
  | some position => .error (.malformed position .unmatchedClose)
  | none => .ok (keepClosed ts).1

end EntityStore.Filter
