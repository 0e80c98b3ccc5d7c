import EntityStore.Filter.Fault
import EntityStore.Filter.Typing
import EntityStore.Query.Error
/-!
# Failures

Everything that a request can fail with, and its kind, code and status for a protocol.
-/
namespace EntityStore

open EntityStore.Filter

/-- Why a store refuses an operation; keys are given as text. -/
inductive StoreError where
  | alreadyExists (key : String)
  | notFound (key : String)
  | versionConflict (key : String) (expected actual : Nat)
  /-- A container still has something below it. -/
  | notEmpty (key : String)
  | invalid (key message : String)
  | storage (message : String)
  deriving DecidableEq, Repr

def StoreError.message : StoreError → String
  | alreadyExists key => key ++ " already exists"
  | notFound key => key ++ " not found"
  | versionConflict key expected actual =>
    "version conflict on " ++ key ++ ": expected " ++ toString expected ++ ", found " ++ toString actual
  | notEmpty key => key ++ " is not empty"
  | invalid key message => "invalid request on " ++ key ++ ": " ++ message
  | storage message => "storage error: " ++ message

/-- Why a lock was not given or not kept. -/
inductive LockError where
  /-- The lock stayed held for the whole time that the caller waited. -/
  | overflow (key : String) (waited : Nat)
  | expired (key : String)
  | poisoned (message : String)
  deriving DecidableEq, Repr

namespace LockError

def message : LockError → String
  | overflow key waited => "lock overflow on " ++ key ++ ": not acquired within " ++ toString waited ++ "ms"
  | expired key => "lock on " ++ key ++ " expired and was taken over"
  | poisoned message => "lock poisoned: " ++ message

/-- Can the caller try again? -/
def isTransient : LockError → Bool
  | overflow _ _ | expired _ => true
  | poisoned _ => false

end LockError

inductive Failure where
  | parse (error : ParseError)
  | typing (error : TypingError)
  | query (error : QueryError)
  | lock (error : LockError)
  /-- The precondition does not admit the current tag. -/
  | preconditionFailed (resource expected actual : String)
  | notFound (resource : String)
  | alreadyExists (resource : String)
  | conflict (resource message : String)
  | storage (message : String)
  deriving DecidableEq, Repr

inductive FailureKind where
  | parse
  | unknownQueryKey
  | typeMismatch
  | outOfRange
  | queryLimitExceeded
  | lockOverflow
  | preconditionFailed
  | notFound
  | alreadyExists
  | conflict
  | storage
  deriving DecidableEq, Repr

/-- The status of HTTP for a kind of failures. -/
def FailureKind.status : FailureKind → Nat
  | parse | unknownQueryKey | typeMismatch | outOfRange | queryLimitExceeded => 400
  | notFound => 404
  | alreadyExists | conflict => 409
  | preconditionFailed => 412
  | lockOverflow => 503
  | storage => 500

namespace Failure

def ofStore : StoreError → Failure
  | .alreadyExists key => alreadyExists key
  | .notFound key => notFound key
  | .versionConflict key expected actual =>
    conflict key ("expected version " ++ toString expected ++ ", found " ++ toString actual)
  | .notEmpty key => conflict key "collection is not empty"
  | .invalid key message => conflict key message
  | .storage message => storage message

def message : Failure → String
  | parse e => e.message
  | typing e => e.message
  | query e => e.message
  | lock e => e.message
  | preconditionFailed resource expected actual =>
    "precondition failed on " ++ resource ++ ": expected " ++ expected ++ ", found " ++ actual
  | notFound resource => "not found: " ++ resource
  | alreadyExists resource => "already exists: " ++ resource
  | conflict resource message => "conflict on " ++ resource ++ ": " ++ message
  | storage message => "storage error: " ++ message

def kind : Failure → FailureKind
  | parse (.unknownKey _) | typing (.unknownKey _ _) => .unknownQueryKey
  | parse _ | typing (.notOrdered _ _) => .parse
  | typing (.mismatch _ _ _ _) => .typeMismatch
  | typing (.outOfRange _ _ _) => .outOfRange
  | query (.limitExceeded _ _ _) | query (.tooManyExpansions _ _) => .queryLimitExceeded
  | query _ => .parse
  | lock (.poisoned _) | storage _ => .storage
  | lock _ => .lockOverflow
  | preconditionFailed _ _ _ => .preconditionFailed
  | notFound _ => .notFound
  | alreadyExists _ => .alreadyExists
  | conflict _ _ => .conflict

def code : Failure → String
  | parse (.malformed _ _) => "FILTER_PARSE_ERROR"
  | parse (.unknownKey _) => "UNKNOWN_QUERY_KEY"
  | parse (.badEscape _) => "OPERATOR_AND_OPERAND_UNABLE_TO_UNESCAPE"
  | parse (.unsupportedOperator _) => "UNSUPPORTED_QUERY_OPERATOR"
  | parse (.unsupportedFunction _) => "UNSUPPORTED_QUERY_FUNCTION"
  | typing (.unknownKey _ _) => "UNKNOWN_QUERY_KEY"
  | typing (.mismatch _ _ _ _) => "OPERATOR_AND_OPERAND_TYPE_MISMATCHED"
  | typing (.outOfRange _ _ _) => "UNSUPPORTED_OPERAND_FORMAT"
  | typing (.notOrdered _ _) => "FILTER_PARSE_ERROR"
  | query (.limitExceeded _ _ _) | query (.keywordLength _) => "QUERY_INVALID_ERROR"
  | query (.unreadable _ _) => "QUERY_PARSE_ERROR_WITH_PARAM"
  | query (.tooManyExpansions _ _) => "EXPAND_COUNT_LIMITATION_EXCEEDED"
  | query (.emptyExpansion _) | query (.unknownNavigation _ _) => "EXPAND_PARSE_ERROR"
  | query .emptyOrder | query (.emptyOrderItem _) | query (.unsortable _) | query (.unknownDirection _)
  | query (.malformedOrderItem _) => "ORDERBY_PARSE_ERROR"
  | query .emptySelection | query (.unselectable _) => "SELECT_PARSE_ERROR"
  | query (.inlineCount _) => "INLINECOUNT_PARSE_ERROR"
  | lock (.poisoned _) => "STORAGE_ERROR"
  | lock _ => "LOCK_OVERFLOW"
  | preconditionFailed _ _ _ => "PRECONDITION_FAILED"
  | notFound _ => "NOT_FOUND"
  | alreadyExists _ => "ALREADY_EXISTS"
  | conflict _ _ => "CONFLICT"
  | storage _ => "STORAGE_ERROR"

def status (f : Failure) : Nat := f.kind.status

/-- Only a lock that was not to be had is worth another try. -/
def isRetryable (f : Failure) : Bool := f.kind = .lockOverflow

/-- Did the request itself cause the failure? -/
def isClientError : Failure → Bool
  | parse _ | typing _ | query _ => true
  | _ => false

end Failure

end EntityStore
