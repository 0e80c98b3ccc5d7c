/-!
# Faults of query options
-/
namespace EntityStore

/-- The options that are numbers. -/
inductive PageOption where
  | top
  | skip
  deriving DecidableEq, Repr

def PageOption.name : PageOption → String
  | top => "top"
  | skip => "skip"

/-- Why the options of a query are refused. -/
inductive QueryError where
  | limitExceeded (option : PageOption) (value : Int) (max : Nat)
  | unreadable (option : PageOption) (text : String)
  | tooManyExpansions (count max : Nat)
  | emptyExpansion (text : String)
  | unknownNavigation (entityType name : String)
  | emptyOrder
  | emptyOrderItem (text : String)
  | unsortable (name : String)
  | unknownDirection (word : String)
  | malformedOrderItem (text : String)
  | emptySelection
  | unselectable (name : String)
  | inlineCount (text : String)
  | keywordLength (max : Nat)
  deriving DecidableEq, Repr

def QueryError.message : QueryError → String
  | limitExceeded option value max =>
    "$" ++ option.name ++ "=" ++ toString value ++ " is outside [0, " ++ toString max ++ "]"
  | unreadable option text => "$" ++ option.name ++ " could not be parsed: \x27" ++ text ++ "\x27"
  | tooManyExpansions count max =>
    "$expand names " ++ toString count ++ " navigation properties, the limit is " ++ toString max
  | emptyExpansion text => "invalid $expand: empty item in \x27" ++ text ++ "\x27"
  | unknownNavigation entityType name =>
    "invalid $expand: " ++ entityType ++ " has no navigation property " ++ name
  | emptyOrder => "invalid $orderby: empty $orderby"
  | emptyOrderItem text => "invalid $orderby: empty item in \x27" ++ text ++ "\x27"
  | unsortable name => "invalid $orderby: cannot sort by \x27" ++ name ++ "\x27"
  | unknownDirection word => "invalid $orderby: unknown direction \x27" ++ word ++ "\x27"
  | malformedOrderItem text => "invalid $orderby: malformed item \x27" ++ text ++ "\x27"
  | emptySelection => "invalid $select: empty $select"
  | unselectable name => "invalid $select: cannot select \x27" ++ name ++ "\x27"
  | inlineCount text => "invalid $inlinecount: " ++ text
  | keywordLength max => "invalid q: length must be between 1 and " ++ toString max ++ " bytes"

end EntityStore
