import EntityStore.Filter.Number
import EntityStore.Filter.Token
import EntityStore.Filter.Tree
import EntityStore.Schema.Name
/-!
# Reading filters

From tokens to trees. `or` binds loosest, then `and`, then comparisons and calls; both connectives associate to
the left. Groups nest at most 64 deep and a filter has at most 256 connectives.
-/
namespace EntityStore.Filter

open EntityStore

def depthMax : Nat := 64

def connectiveMax : Nat := 256

/-- Operator words of larger filter languages. -/
def unsupportedOperators : List String := ["add", "sub", "mul", "div", "mod", "not"]

/-- Function words of larger filter languages. -/
def unsupportedFunctions : List String :=
  ["endswith", "indexof", "length", "substring", "replace", "tolower", "toupper", "trim", "concat", "year",
    "month", "day", "hour", "minute", "second", "round", "floor", "ceiling", "isof", "cast"]

/-- Words that are literals: the three constants and the numbers. -/
def isLiteralWord (word : String) : Bool :=
  word == "null" || word == "true" || word == "false" || (readNumber? word).isSome

/-! ## Operands

Every reader takes the tokens that are left and returns its result with the rest. `stop` is the length of the
text, the position of what is missing at its end. -/

def nextPosition (stop : Nat) : List Token → Nat
  | [] => stop
  | token :: _ => token.position

def expect (stop : Nat) (kind : TokenKind) (what : Expectation) (ts : List Token) :
    Except ParseError (List Token) :=
  match ts with
  | token :: rest =>
    if token.kind = kind then .ok rest else .error (.malformed token.position (.expected what))
  | [] => .error (.malformed stop (.expected what))

def checkProperty (position : Nat) (name : String) : Except ParseError Unit :=
  if Name.isReserved name || Name.isNavigation name then .error (.unknownKey name)
  else if Name.isValid name then .ok ()
  else .error (.malformed position (.propertyName name))

def wordLiteral (position : Nat) (word : String) : Except ParseError Literal :=
  if word = "null" then .ok .null
  else if word = "true" then .ok (.boolean true)
  else if word = "false" then .ok (.boolean false)
  else
    match readNumber? word with
    | some (.ok literal) => .ok literal
    | some (.error fault) => .error (.malformed position fault)
    | none =>
      if Name.isReserved word || Name.isNavigation word then .error (.unknownKey word)
      else .error (.malformed position (.notALiteral word))

def taggedLiteral (position : Nat) (tag body : String) : Except ParseError Literal :=
  let millis : Except ParseError Int :=
    match Timestamp.read? body with
    | some millis => .ok millis
    | none => .error (.malformed position (.timestampPattern body))
  if tag = "datetime" then millis.map .dateTime
  else if tag = "datetimeoffset" then millis.map .dateTimeOffset
  else .error (.malformed position (.unknownTag tag))

def readLiteral (stop : Nat) (ts : List Token) : Except ParseError (Literal × List Token) :=
  match ts with
  | [] => .error (.malformed stop (.expected .literal))
  | ⟨.quoted raw, _⟩ :: rest =>
    match unescape? raw.toList with
    | some value => .ok (.string (.ofList value), rest)
    | none => .error (.badEscape raw)
  | ⟨.tagged tag body, position⟩ :: rest => (taggedLiteral position tag body).map (·, rest)
  | ⟨.word word, position⟩ :: rest => (wordLiteral position word).map (·, rest)
  | ⟨_, position⟩ :: _ => .error (.malformed position (.expected .literal))

def readProperty (stop : Nat) (ts : List Token) : Except ParseError (String × List Token) :=
  match ts with
  | ⟨.word word, position⟩ :: rest =>
    if isLiteralWord word then .error (.malformed position (.expected .property))
    else (checkProperty position word).map fun _ => (word, rest)
  | _ => .error (.malformed (nextPosition stop ts) (.expected .property))

/-! ## Comparisons and calls -/

def readComparator (stop : Nat) (ts : List Token) : Except ParseError (Comparator × List Token) :=
  match ts with
  | ⟨.word word, position⟩ :: rest =>
    match Comparator.ofWord? word with
    | some op => .ok (op, rest)
    | none =>
      if unsupportedOperators.contains word then .error (.unsupportedOperator word)
      else .error (.malformed position (.unknownComparator word))
  | _ => .error (.malformed (nextPosition stop ts) (.expected .comparator))

/-- Reads a comparison after its property. -/
def readComparison (stop : Nat) (property : String) (position : Nat) (ts : List Token) :
    Except ParseError (Filter × List Token) := do
  checkProperty position property
  let (op, ts) ← readComparator stop ts
  let place := nextPosition stop ts
  let (operand, ts) ← readLiteral stop ts
  if op.isOrdering && (operand.isNull || operand.isBoolean) then
    .error (.malformed place (.notOrdered op.word operand.className))
  else .ok (.compare property op operand, ts)

def functionOfWord (position : Nat) (word : String) : Except ParseError StringTest :=
  if word = "startswith" then .ok .startsWith
  else if word = "substringof" then .ok .substringOf
  else if unsupportedFunctions.contains word then .error (.unsupportedFunction word)
  else .error (.malformed position (.unknownFunction word))

/-- Reads a call after its function word. -/
def readCall (stop : Nat) (word : String) (position : Nat) (ts : List Token) :
    Except ParseError (Filter × List Token) := do
  match ← functionOfWord position word with
  | .startsWith =>
    let ts ← expect stop .openParen .openParen ts
    let (property, ts) ← readProperty stop ts
    let ts ← expect stop .comma .comma ts
    let (operand, ts) ← readLiteral stop ts
    let ts ← expect stop .closeParen .closeParen ts
    return (.test .startsWith property operand, ts)
  | .substringOf =>
    let ts ← expect stop .openParen .openParen ts
    let (operand, ts) ← readLiteral stop ts
    let ts ← expect stop .comma .comma ts
    let (property, ts) ← readProperty stop ts
    let ts ← expect stop .closeParen .closeParen ts
    return (.test .substringOf property operand, ts)

/-- Reads a comparison or a call after its first word. -/
def readLeaf (stop : Nat) (word : String) (position : Nat) (ts : List Token) :
    Except ParseError (Filter × List Token) :=
  if word = "and" || word = "or" then .error (.malformed position (.missingOperand word))
  else if unsupportedOperators.contains word then .error (.unsupportedOperator word)
  else
    match ts with
    | ⟨.openParen, _⟩ :: _ => readCall stop word position ts
    | _ =>
      if isLiteralWord word then .error (.malformed position .leftOperand)
      else readComparison stop word position ts

/-! ## Trees -/

/-- A tree that was read, the number of connectives that may still come, and the rest. -/
structure Progress where
  tree : Filter
  spare : Nat
  rest : List Token

/-- A reader of trees; it is given the number of connectives that may still come. -/
abbrev TreeReader := Nat → List Token → Except ParseError Progress

/-- The position of the connective `c`, if it comes next, and the tokens after it. -/
def takeConnective? (c : Connective) : List Token → Option (Nat × List Token)
  | ⟨.word word, position⟩ :: rest => if word = c.word then some (position, rest) else none
  | _ => none

/-- Reads on after `left`: further operands, each after the connective `c`. The fuel is a bound on the number of
connectives that may still come. -/
def chainFrom (c : Connective) (operand : TreeReader) (fuel : Nat) (left : Progress) :
    Except ParseError Progress :=
  match takeConnective? c left.rest with
  | none => .ok left
  | some (position, ts) =>
    match fuel, left.spare with
    | fuel + 1, spare + 1 => do
      let right ← operand spare ts
      chainFrom c operand fuel ⟨.join c left.tree right.tree, right.spare, right.rest⟩
    | _, _ => .error (.malformed position .tooManyConnectives)

/-- Reads one or more operands with the connective `c` between them. -/
def chain (c : Connective) (operand : TreeReader) : TreeReader := fun spare ts => do
  let first ← operand spare ts
  chainFrom c operand first.spare first

/-- Reads a group, a comparison or a call; `inner` reads the inside of a group, if one may still open. -/
def readPrimary (stop : Nat) (inner : Option TreeReader) : TreeReader := fun spare ts =>
  match ts with
  | [] => .error (.malformed stop (.expected .expression))
  | ⟨.openParen, position⟩ :: ts =>
    match inner with
    | none => .error (.malformed position .nestedTooDeeply)
    | some inner => do
      let inside ← inner spare ts
      let ts ← expect stop .closeParen .closeParen inside.rest
      return ⟨.group inside.tree, inside.spare, ts⟩
  | ⟨.word word, position⟩ :: ts => do
    let (leaf, ts) ← readLeaf stop word position ts
    return ⟨leaf, spare, ts⟩
  | ⟨_, position⟩ :: _ => .error (.malformed position .leftOperand)

/-- Reads a tree in which groups nest at most `depth` deep. -/
def readTree (stop : Nat) : Nat → TreeReader
  | 0 => chain .or (chain .and (readPrimary stop none))
  | depth + 1 => chain .or (chain .and (readPrimary stop (some (readTree stop depth))))

def ofTokens (stop : Nat) (ts : List Token) : Except ParseError Filter := do
  if ts.isEmpty then .error (.malformed 0 .emptyFilter)
  else
    let all ← readTree stop depthMax connectiveMax ts
    match all.rest with
    | [] => .ok all.tree
    | token :: _ => .error (.malformed token.position .trailingToken)

def parse (text : String) : Except ParseError Filter := do
  let ts ← matchParens (← tokens text)
  ofTokens (Text.byteLength text.toList) ts

end EntityStore.Filter
