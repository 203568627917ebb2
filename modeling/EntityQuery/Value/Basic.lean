import EntityQuery.Entries
import EntityQuery.Instant.Basic
import EntityQuery.Decimal.Binary64

/-!
# Values and records

A record is a map from field names to values. A value is a scalar, a list of values
or a nested record; related records are nested, one as a record and many as a list.
Every record has its identity under one fixed field name.
-/

namespace EntityQuery

/-- A value of a field, or a literal of a query. -/
inductive Value where
  /-- No value. -/
  | null
  /-- True or false. -/
  | bool (b : Bool)
  /-- A whole number of 64 bits with sign. -/
  | int (n : Int64)
  /-- A double. -/
  | float (x : Float)
  /-- A text. -/
  | string (text : String)
  /-- A moment with its offset. -/
  | instant (t : Instant)
  /-- A sequence of values. -/
  | list (items : List Value)
  /-- A nested record. -/
  | record (fields : List (String × Value))
  deriving Inhabited

/-- Field names and their values. -/
abbrev Record := Entries Value

/-- The name of the identity field. -/
def identityField : String := "id"

namespace Value

/-- Null and nothing else. -/
def isNull : Value → Bool
  | null => true
  | _ => false

/-- The text of a text. -/
def asString? : Value → Option String
  | string text => some text
  | _ => none

/-- The items of a list. -/
def asList? : Value → Option (List Value)
  | list items => some items
  | _ => none

/-- The fields of a nested record. -/
def asRecord? : Value → Option Record
  | record fields => some fields
  | _ => none

/-- The instant of an instant. -/
def asInstant? : Value → Option Instant
  | instant t => some t
  | _ => none

/-- The name of the kind of a value. -/
def kind : Value → String
  | null => "null"
  | bool _ => "bool"
  | int _ => "int"
  | float _ => "float"
  | string _ => "string"
  | instant _ => "datetime"
  | list _ => "list"
  | record _ => "object"

mutual

/-- Equality of values. Kinds must agree; numbers that are not numbers differ from
everything, both zeros are equal, and instants are equal when they are the same moment. -/
def equal : Value → Value → Bool
  | null, null => true
  | bool a, bool b => a == b
  | int a, int b => a == b
  | float x, float y => Decimal.compareFloats x y == some .eq
  | string a, string b => a == b
  | instant s, instant t => s.same t
  | list xs, list ys => equalItems xs ys
  | record xs, record ys => equalFields xs ys
  | _, _ => false
termination_by structural value => value

/-- Equality of lists of values. -/
def equalItems : List Value → List Value → Bool
  | [], [] => true
  | x :: xs, y :: ys => x.equal y && equalItems xs ys
  | _, _ => false
termination_by structural items => items

/-- Equality of records. -/
def equalFields : List (String × Value) → List (String × Value) → Bool
  | [], [] => true
  | (a, x) :: xs, (b, y) :: ys => a == b && x.equal y && equalFields xs ys
  | _, _ => false
termination_by structural fields => fields

end

end Value

end EntityQuery
