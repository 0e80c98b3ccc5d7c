/-!
# Faults of filter texts

The ways in which a filter text can be wrong, and the messages that say so.
-/
namespace EntityStore.Filter

inductive Expectation where
  | openParen
  | closeParen
  | comma
  | expression
  | comparator
  | literal
  | property
  deriving DecidableEq, Repr

def Expectation.text : Expectation → String
  | openParen => "\x27(\x27"
  | closeParen => "\x27)\x27"
  | comma => "\x27,\x27"
  | expression => "expression"
  | comparator => "comparison operator"
  | literal => "literal"
  | property => "property name"

inductive Fault where
  | unterminatedString
  | emptyFilter
  | unmatchedClose
  | trailingToken
  | expected (what : Expectation)
  | tooManyConnectives
  | nestedTooDeeply
  | missingOperand (word : String)
  | leftOperand
  | unknownComparator (word : String)
  | notOrdered (operator className : String)
  | unknownFunction (word : String)
  | timestampPattern (body : String)
  | unknownTag (tag : String)
  | notALiteral (word : String)
  | longRange (word : String)
  | propertyName (name : String)
  deriving DecidableEq, Repr

def Fault.message : Fault → String
  | unterminatedString => "unterminated string literal"
  | emptyFilter => "empty filter expression"
  | unmatchedClose => "unmatched \x27)\x27"
  | trailingToken => "unexpected trailing token"
  | expected what => "expected " ++ what.text
  | tooManyConnectives => "too many \x27and\x27/\x27or\x27 operators"
  | nestedTooDeeply => "expression nested too deeply"
  | missingOperand word => "missing operand before \x27" ++ word ++ "\x27"
  | leftOperand => "left operand of a comparison must be a property"
  | unknownComparator word => "unknown operator \x27" ++ word ++ "\x27"
  | notOrdered operator className => "\x27" ++ operator ++ "\x27 is not defined for " ++ className ++ " operands"
  | unknownFunction word => "unknown function \x27" ++ word ++ "\x27"
  | timestampPattern body => "unrecognised datetime pattern \x27" ++ body ++ "\x27"
  | unknownTag tag => "unsupported literal prefix \x27" ++ tag ++ "\x27"
  | notALiteral word => "expected literal, found \x27" ++ word ++ "\x27"
  | longRange word => "long literal out of range: " ++ word
  | propertyName name => "invalid property name \x27" ++ name ++ "\x27"

/-- Why a text is no filter. -/
inductive ParseError where
  /-- A fault at an offset in octets. -/
  | malformed (position : Nat) (fault : Fault)
  /-- A reserved name or a navigation property stands for an operand. -/
  | unknownKey (name : String)
  /-- A string operand has an escape that stands for nothing. -/
  | badEscape (operand : String)
  | unsupportedOperator (word : String)
  | unsupportedFunction (word : String)
  deriving DecidableEq, Repr

def ParseError.message : ParseError → String
  | malformed position fault => "filter parse error at offset " ++ toString position ++ ": " ++ fault.message
  | unknownKey name => "unknown query key: " ++ name
  | badEscape operand => "unable to unescape operand \x27" ++ operand ++ "\x27"
  | unsupportedOperator word => "unsupported query operator: " ++ word
  | unsupportedFunction word => "unsupported query function: " ++ word

end EntityStore.Filter
