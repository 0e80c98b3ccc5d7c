import EntityStore.Filter.Reading

/-!
# The grammar of filters

What the kinds of tokens in a row denote. A filter is an `or` chain of `and` chains of operands, and an operand
is a group, a comparison or a call. The trees of both chains lean to the left.
-/
namespace EntityStore.Filter

/-- The words of operators, which never stand for a property on the left of a comparison. -/
def operatorWords : List String := ["and", "or", "add", "sub", "mul", "div", "mod", "not"]

/-- The words that name a property. -/
structure IsPropertyName (word : String) : Prop where
  valid : Name.isValid word = true
  notReserved : Name.isReserved word = false
  notNavigation : Name.isNavigation word = false
  notLiteral : isLiteralWord word = false

/-- The literal of a single token. -/
inductive Denotes : TokenKind → Literal → Prop
  | null : Denotes (.word "null") .null
  | true : Denotes (.word "true") (.boolean true)
  | false : Denotes (.word "false") (.boolean false)
  | number {word : String} {literal : Literal} (read : readNumber? word = some (.ok literal)) :
      Denotes (.word word) literal
  | string {raw : String} {value : List Char} (decoded : unescape? raw.toList = some value) :
      Denotes (.quoted raw) (.string (.ofList value))
  | dateTime {body : String} {millis : Int} (read : Timestamp.read? body = some millis) :
      Denotes (.tagged "datetime" body) (.dateTime millis)
  | dateTimeOffset {body : String} {millis : Int} (read : Timestamp.read? body = some millis) :
      Denotes (.tagged "datetimeoffset" body) (.dateTimeOffset millis)

/-- The levels of the grammar. -/
inductive Level where
  | operand
  | chain (connective : Connective)

/-- What a chain joins. -/
def Level.below : Connective → Level
  | .and => operand
  | .or => chain .and

/-- The tokens denote the tree, on a level of the grammar. -/
inductive Derives : Level → List TokenKind → Filter → Prop
  | compare {property : String} {op : Comparator} {k : TokenKind} {operand : Literal}
      (name : IsPropertyName property) (subject : property ∉ operatorWords) (denotes : Denotes k operand)
      (ordered : op.isOrdering = true → operand.isNull = false ∧ operand.isBoolean = false) :
      Derives .operand [.word property, .word op.word, k] (.compare property op operand)
  | startsWith {property : String} {k : TokenKind} {operand : Literal} (name : IsPropertyName property)
      (denotes : Denotes k operand) :
      Derives .operand [.word "startswith", .openParen, .word property, .comma, k, .closeParen]
        (.test .startsWith property operand)
  | substringOf {property : String} {k : TokenKind} {operand : Literal} (name : IsPropertyName property)
      (denotes : Denotes k operand) :
      Derives .operand [.word "substringof", .openParen, k, .comma, .word property, .closeParen]
        (.test .substringOf property operand)
  | group {ks : List TokenKind} {inner : Filter} (inside : Derives (.chain .or) ks inner) :
      Derives .operand (.openParen :: ks ++ [.closeParen]) (.group inner)
  | single {c : Connective} {ks : List TokenKind} {t : Filter} (only : Derives (.below c) ks t) :
      Derives (.chain c) ks t
  | join {c : Connective} {ks ks' : List TokenKind} {left right : Filter} (before : Derives (.chain c) ks left)
      (last : Derives (.below c) ks' right) :
      Derives (.chain c) (ks ++ .word c.word :: ks') (.join c left right)

/-- The depth of its groups. -/
def nesting : Filter → Nat
  | compare _ _ _ | test _ _ _ => 0
  | join _ left right => max left.nesting right.nesting
  | group inner => inner.nesting + 1

/-- The number of its connectives. -/
def connectives : Filter → Nat
  | compare _ _ _ | test _ _ _ => 0
  | join _ left right => left.connectives + right.connectives + 1
  | group inner => inner.connectives

/-- The tokens denote the tree, which keeps the bounds on nesting and on connectives. -/
structure Sentence (ks : List TokenKind) (t : Filter) : Prop where
  derives : Derives (.chain .or) ks t
  nesting : t.nesting ≤ 64
  connectives : t.connectives ≤ 256

end EntityStore.Filter
