import EntityQuery.Json.Basic
import EntityQuery.Json.Printer
import EntityQuery.Value.Basic
import EntityQuery.Instant.Rfc3339

/-!
# Values as plain documents and as texts

A plain document holds a value without naming its kind: instants become texts, and
numbers that are no finite numbers become null. Reading a document back never gives
an instant. Whole numbers outside 64 bits are read as doubles.
-/

namespace EntityQuery.Value

mutual

/-- The plain document of a value. -/
def toJson : Value → Json
  | null => .null
  | bool b => .bool b
  | int n => .int n.toInt
  | float x => if Decimal.isFiniteFloat x then .float x else .null
  | string text => .string text
  | instant t => Json.ofString? t.rfc3339?
  | list items => .array (itemsToJson items)
  | record fields => .object (fieldsToJson fields)
termination_by structural value => value

/-- The plain documents of a list of values. -/
def itemsToJson : List Value → List Json
  | [] => []
  | item :: items => item.toJson :: itemsToJson items
termination_by structural items => items

/-- The plain documents of the fields of a record. -/
def fieldsToJson : List (String × Value) → List (String × Json)
  | [] => []
  | (name, value) :: fields => (name, value.toJson) :: fieldsToJson fields
termination_by structural fields => fields

end

/-- A whole number as a value: a double if it does not fit 64 bits. -/
def ofInt (n : Int) : Value :=
  if Json.fitsInt64 n then int (Int64.ofInt n) else float (Float.ofInt n)

mutual

/-- The value of a plain document. -/
def ofJson : Json → Value
  | .null => null
  | .bool b => bool b
  | .int n => ofInt n
  | .float x => float x
  | .string text => string text
  | .array items => list (itemsOfJson items)
  | .object members => record (Entries.ofList (fieldsOfJson members))
termination_by structural document => document

/-- The values of a list of plain documents. -/
def itemsOfJson : List Json → List Value
  | [] => []
  | item :: items => ofJson item :: itemsOfJson items
termination_by structural items => items

/-- The values of the members of an object, in the order written. -/
def fieldsOfJson : List (String × Json) → List (String × Value)
  | [] => []
  | (name, member) :: members => (name, ofJson member) :: fieldsOfJson members
termination_by structural members => members

end

/-- The text of a value: scalars plainly, lists and records as documents without blanks. -/
def text : Value → String
  | null => "null"
  | bool b => if b then "true" else "false"
  | int n => toString n.toInt
  | float x => Decimal.FloatFormat.plain.text x
  | string text => text
  | instant t => t.text
  | list items => (Json.array (itemsToJson items)).compact
  | record fields => (Json.object (fieldsToJson fields)).compact

end EntityQuery.Value

namespace EntityQuery.Record

/-- The record of a plain document; anything but an object gives the empty record. -/
def ofJson (document : Json) : Record :=
  (Value.ofJson document).asRecord?.getD []

/-- The plain document of a record. -/
def toJson (record : Record) : Json := (Value.record record).toJson

end EntityQuery.Record
