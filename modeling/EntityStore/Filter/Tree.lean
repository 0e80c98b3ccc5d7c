import EntityStore.Filter.Literal
/-!
# Filters

The tree of a filter and its text.
-/
namespace EntityStore

namespace Filter

inductive Comparator where
  | eq
  | ne
  | gt
  | ge
  | lt
  | le
  deriving DecidableEq, Repr

namespace Comparator

def word : Comparator → String
  | eq => "eq"
  | ne => "ne"
  | gt => "gt"
  | ge => "ge"
  | lt => "lt"
  | le => "le"

def all : List Comparator := [eq, ne, gt, ge, lt, le]

def ofWord? (word : String) : Option Comparator := all.find? fun op => op.word == word

/-- The comparators that ask for an order, not just for equality. -/
def isOrdering : Comparator → Bool
  | eq | ne => false
  | gt | ge | lt | le => true

theorem ofWord?_word (op : Comparator) : ofWord? op.word = some op := by cases op <;> decide

theorem ofWord?_eq_some_iff {w : String} {op : Comparator} : ofWord? w = some op ↔ w = op.word := by
  constructor
  · intro h
    have := List.find?_some h
    exact (by simpa using this : op.word = w).symm
  · rintro rfl
    exact ofWord?_word op

end Comparator

inductive Connective where
  | and
  | or
  deriving DecidableEq, Repr

def Connective.word : Connective → String
  | and => "and"
  | or => "or"

/-- The tests of a string property that are written as calls. -/
inductive StringTest where
  | startsWith
  | substringOf
  deriving DecidableEq, Repr

def StringTest.word : StringTest → String
  | startsWith => "startswith"
  | substringOf => "substringof"

end Filter

open EntityStore.Filter

/-- A filter as written, before its names and operands are checked against a schema. -/
inductive Filter where
  | compare (property : String) (op : Comparator) (operand : Literal)
  | test (test : StringTest) (property : String) (operand : Literal)
  | join (connective : Connective) (left right : Filter)
  | group (inner : Filter)
  deriving DecidableEq, Repr

namespace Filter

/-- A filter as text, with a single blank between words. -/
def text : Filter → String
  | compare property op operand => property ++ " " ++ op.word ++ " " ++ operand.text
  | test .startsWith property operand => "startswith(" ++ property ++ "," ++ operand.text ++ ")"
  | test .substringOf property operand => "substringof(" ++ operand.text ++ "," ++ property ++ ")"
  | join connective left right => left.text ++ " " ++ connective.word ++ " " ++ right.text
  | group inner => "(" ++ inner.text ++ ")"

/-- Equality of trees, with numbers compared by value. -/
def same : Filter → Filter → Bool
  | compare p o l, compare p' o' l' => p == p' && o == o' && l.same l'
  | test t p l, test t' p' l' => t == t' && p == p' && l.same l'
  | join c a b, join c' a' b' => c == c' && a.same a' && b.same b'
  | group a, group a' => a.same a'
  | _, _ => false

end Filter

end EntityStore
