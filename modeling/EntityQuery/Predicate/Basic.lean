import EntityQuery.Comparison
import EntityQuery.Value.Basic

/-!
# Predicates

A predicate is a tree of conditions on the records of one type. Leaves compare two
operands, look for a text, test a shape or assert a type; inner nodes join, negate or
quantify. Joining extends a group of the same connective on the left instead of
nesting it.
-/

namespace EntityQuery

/-- One side of a comparison. -/
inductive Operand where
  /-- The value at a path of field names with dots between them. -/
  | field (path : String)
  /-- A fixed value. -/
  | literal (value : Value)
  deriving Inhabited

/-- The path of an operand that has one. -/
def Operand.path? : Operand → Option String
  | field path => some path
  | literal _ => none

/-- The value of an operand that is fixed. -/
def Operand.literal? : Operand → Option Value
  | field _ => none
  | literal value => some value

/-- How the members of a group are joined. -/
inductive Connective where
  /-- Every member must hold. -/
  | and
  /-- At least one member must hold. -/
  | or
  deriving Repr, DecidableEq

/-- How many items of a collection must satisfy a condition. -/
inductive Quantifier where
  /-- Every item. -/
  | all
  /-- At least one item. -/
  | any
  deriving Repr, DecidableEq

/-- The kind of coordinates of a shape. -/
inductive ShapeKind where
  /-- Coordinates on the globe. -/
  | geography
  /-- Coordinates in the plane. -/
  | geometry
  deriving Repr, DecidableEq

/-- A test of an attribute against a shape in well-known text. -/
inductive ShapeTest where
  /-- The attribute meets the shape. -/
  | intersects (shape : String)
  /-- The distance to the shape compares with a limit. -/
  | distance (shape : String) (op : Comparison) (limit : Float)
  deriving Inhabited

/-- A condition on the records of a type. -/
inductive Predicate where
  /-- Two operands compare. -/
  | compare (left : Operand) (op : Comparison) (right : Operand)
  /-- Two operands compare as instants, or as calendar dates when `timeless`. -/
  | compareDates (left : Operand) (op : Comparison) (right : Operand) (timeless : Bool)
  /-- Conditions joined by a connective. -/
  | group (connective : Connective) (members : List Predicate)
  /-- The text at a path contains another, whatever the letter case. -/
  | contains (path text : String)
  /-- The shape at a path passes a test. -/
  | shape (kind : ShapeKind) (path : String) (test : ShapeTest)
  /-- The items of the collection at a path satisfy a condition. -/
  | quantified (path : String) (quantifier : Quantifier) (body : Predicate)
  /-- A condition does not hold. -/
  | not (body : Predicate)
  /-- The record, or the value of an expression, is of a type. -/
  | isOf (expression : Option String) (typeName : String)
  /-- Always or never. -/
  | const (verdict : Bool)
  deriving Inhabited

namespace Predicate

/-- A field against a fixed value. -/
def simple (path : String) (op : Comparison) (value : Value) : Predicate :=
  compare (.field path) op (.literal value)

/-- The name of the kind of a predicate. -/
def kind : Predicate → String
  | compare .. => "simple"
  | compareDates .. => "date"
  | group .. => "complex"
  | contains .. => "string"
  | shape .. => "spatial"
  | quantified .. => "detail"
  | not _ => "not"
  | isOf .. => "is_of"
  | const true => "true"
  | const false => "false"

/-- Join two predicates; a group of the same connective on the left is extended. -/
def join (connective : Connective) (left right : Predicate) : Predicate :=
  match left with
  | group inner members =>
    if inner = connective then group inner (members ++ [right]) else group connective [left, right]
  | _ => group connective [left, right]

/-- Both predicates hold. -/
def and (left right : Predicate) : Predicate := join .and left right

/-- At least one of two predicates holds. -/
def or (left right : Predicate) : Predicate := join .or left right

/-- Join a condition to those before it, either of which may be missing. -/
def conjoin? : Option Predicate → Option Predicate → Option Predicate
  | some sofar, some added => some (sofar.and added)
  | some sofar, none => some sofar
  | none, added => added

/-- Nothing is added by a missing condition. -/
@[simp] theorem conjoin?_none_right (sofar : Option Predicate) : conjoin? sofar none = sofar := by
  cases sofar <;> rfl

/-- A group of two or more predicates. -/
def groupOf (connective : Connective) (members : List Predicate) : Except Fault Predicate :=
  if members.length < 2 then .error (.tooFewPredicates members.length)
  else .ok (group connective members)

/-- A path below another one. -/
def joinPath (outer path : String) : String :=
  if outer.isEmpty then path else outer ++ "." ++ path

mutual

/-- The paths that a predicate reads, below an outer path. The body of a quantifier
reads below the path of its collection. -/
def pathsBelow (outer : String) : Predicate → List String
  | compare left _ right | compareDates left _ right _ =>
    (left.path?.toList ++ right.path?.toList).map (joinPath outer)
  | contains path _ | shape _ path _ => [joinPath outer path]
  | isOf expression _ => expression.toList.map (joinPath outer)
  | group _ members => pathsOfMembers outer members
  | quantified path _ body => joinPath outer path :: pathsBelow (joinPath outer path) body
  | not body => pathsBelow outer body
  | const _ => []
termination_by structural predicate => predicate

/-- The paths that the members of a group read. -/
def pathsOfMembers (outer : String) : List Predicate → List String
  | [] => []
  | member :: members => pathsBelow outer member ++ pathsOfMembers outer members
termination_by structural members => members

end

/-- Every path that a predicate reads, from the queried type. -/
def paths (predicate : Predicate) : List String := pathsBelow "" predicate

end Predicate

end EntityQuery
