/-!
# What can go wrong with a query

A query fails because the schema does not know a name, because it was put together
wrongly, or because an engine cannot serve it. Every cause has a code for programs
and a message for people.
-/

namespace EntityQuery

/-- Arguments that make no sense. -/
inductive Misuse where
  /-- A comparison operator that does not exist. -/
  | unknownOperator (text : String)
  /-- A lookup by an identity that is null. -/
  | nullIdentity
  /-- A filter given by neither a predicate nor a path, an operator and a value. -/
  | whereArguments (count : Nat)
  /-- A query over no type. -/
  | noQueriedType
  /-- A type assertion without a type. -/
  | blankTypeName
  /-- A list or a record where a literal is needed. -/
  | literalKind (kind : String)
  /-- A literal that does not fit the declared type of the field it is compared with. -/
  | literalMismatch (kind value owner field : String)
  /-- Anything else, in words. -/
  | other (text : String)
  deriving Repr, DecidableEq

/-- The explanation of a misuse. -/
def Misuse.message : Misuse → String
  | unknownOperator text => "unknown operator '" ++ text ++ "'"
  | nullIdentity => "by_id requires a non-null identity"
  | whereArguments count =>
    "where expects a predicate or (path, op, value), got " ++ toString count ++ " argument(s)"
  | noQueriedType => "from() must name the queried type"
  | blankTypeName => "isOf requires a type name"
  | literalKind kind => kind ++ " values cannot be rendered as protocol literals"
  | literalMismatch kind value owner field =>
    kind ++ " value '" ++ value ++ "' does not match the type of " ++ owner ++ "." ++ field
  | other text => text

/-- Why a query cannot be built, sent or run. -/
inductive Fault where
  /-- The schema has no such model. -/
  | unknownModel (model : String)
  /-- The model has no such field. -/
  | unknownProperty (model property : String)
  /-- The model has no such projection. -/
  | projectionNotFound (model projection : String)
  /-- A path goes on after a field that leads nowhere. -/
  | notRelationship (model property : String)
  /-- Arguments that make no sense. -/
  | invalidArguments (misuse : Misuse)
  /-- A group of fewer than two predicates. -/
  | tooFewPredicates (count : Nat)
  /-- An order clause without keys. -/
  | emptyOrder
  /-- A direction that is neither ascending nor descending. -/
  | invalidDirection (path direction : String)
  /-- A value that is no instant. -/
  | invalidDate (value : String)
  /-- A path that is empty or has an empty segment. -/
  | emptyPath (path : String)
  /-- A predicate that an engine does not know. -/
  | unsupportedPredicate (engine kind : String)
  /-- Settings or a schema that cannot be read. -/
  | configuration (text : String)
  /-- A store that cannot answer. -/
  | store (text : String)
  deriving Repr, DecidableEq

namespace Fault

/-- The code of a fault. -/
def code : Fault → String
  | unknownModel _ => "UnknownModel"
  | unknownProperty _ _ => "UnknownProperty"
  | projectionNotFound _ _ => "ProjectionNotFound"
  | notRelationship _ _ => "NotARelationship"
  | invalidArguments _ => "InvalidArguments"
  | tooFewPredicates _ => "TooFewPredicates"
  | emptyOrder => "EmptyOrderBy"
  | invalidDirection _ _ => "InvalidOrderDirection"
  | invalidDate _ => "InvalidDate"
  | emptyPath _ => "EmptyPath"
  | unsupportedPredicate _ _ => "UnsupportedPredicate"
  | configuration _ => "Config"
  | store _ => "Store"

/-- The message of a fault. -/
def message : Fault → String
  | unknownModel model => "unknown model '" ++ model ++ "'"
  | unknownProperty model property =>
    "unknown property '" ++ property ++ "' on model '" ++ model ++ "'"
  | projectionNotFound model projection =>
    "projection '" ++ projection ++ "' not found on model '" ++ model ++ "'"
  | notRelationship model property =>
    "property '" ++ property ++ "' on model '" ++ model ++ "' is not a traversable relationship"
  | invalidArguments misuse => "invalid arguments: " ++ misuse.message
  | tooFewPredicates count =>
    "complex predicate requires at least two children (got " ++ toString count ++ ")"
  | emptyOrder => "order clause must name at least one attribute"
  | invalidDirection path direction =>
    "order direction '" ++ direction ++ "' for '" ++ path ++ "' must be 'asc' or 'desc'"
  | invalidDate value => "'" ++ value ++ "' is not a valid date"
  | emptyPath path => "attribute path '" ++ path ++ "' is empty or malformed"
  | unsupportedPredicate engine kind =>
    engine ++ " translator does not support " ++ kind ++ " predicates"
  | configuration text => "configuration error: " ++ text
  | store text => "local store error: " ++ text

/-- The message with the code in front. -/
def codedMessage (fault : Fault) : String :=
  "[" ++ fault.code ++ "] " ++ fault.message

/-- Faults that come from a name the schema does not know or a path it does not have. -/
def isSchemaFault : Fault → Bool
  | unknownModel _ | unknownProperty _ _ | projectionNotFound _ _ | notRelationship _ _ => true
  | _ => false

/-- Faults in the way a predicate or a query was put together. -/
def isConstructionFault : Fault → Bool
  | invalidArguments _ | tooFewPredicates _ | emptyOrder | invalidDirection _ _
  | invalidDate _ | emptyPath _ => true
  | _ => false

/-- No fault is of both kinds. -/
theorem not_isConstructionFault_of_isSchemaFault {fault : Fault} (h : fault.isSchemaFault = true) :
    fault.isConstructionFault = false := by
  cases fault <;> simp_all [isSchemaFault, isConstructionFault]

end Fault

end EntityQuery
