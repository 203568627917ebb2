import EntityQuery.Dates
import EntityQuery.Predicate.Basic
import EntityQuery.Rows.Read
import EntityQuery.Schema.Lookup
import EntityQuery.Text.Lowercase
import EntityQuery.Text.Search
import EntityQuery.Value.Json
import EntityQuery.Value.Order

/-!
# Testing records

A test is a predicate whose paths have been looked up. It is evaluated on one record
at a time: an absent value reads as null, values that do not compare count as
different, and a quantifier ranges over the items of a list, of which only records can
pass. Shapes are not tested, so a shape test lets every record through.
-/

namespace EntityQuery.Rows

/-- One side of a comparison. -/
inductive Source where
  /-- The value along a path. -/
  | path (segments : List String)
  /-- A fixed value. -/
  | fixed (value : Value)

/-- The value of a source in a record. -/
def Source.read (record : Record) : Source → Value
  | path segments => record.read segments
  | fixed value => value

/-- How both sides of a comparison are taken. -/
inductive Reading where
  /-- As values, or as moments if one of them is an instant. -/
  | values
  /-- As moments. -/
  | moments
  /-- As calendar dates, each by its own clock. -/
  | days
  deriving Repr, DecidableEq

namespace Reading

/-- Two values are taken as instants: always, or because one of them is. -/
def takesInstants (reading : Reading) (left right : Value) : Bool :=
  reading != values || left.asInstant?.isSome || right.asInstant?.isSome

/-- Compare two instants as moments or as calendar dates. -/
def compareInstants (reading : Reading) (s t : Instant) : Ordering :=
  if reading = days then compare s.localDay t.localDay else compare s.nanos t.nanos

/-- Both values as instants, if they are taken so and neither is null. -/
def instants? (style : DateStyle) (reading : Reading) (left right : Value) :
    Option (Instant × Instant) :=
  if reading.takesInstants left right && !left.isNull && !right.isNull then do
    return (← style.read? left, ← style.read? right)
  else none

/-- Compare two values. Those that cannot be taken as instants compare as values. -/
def compare? (style : DateStyle) (reading : Reading) (left right : Value) : Option Ordering :=
  match reading.instants? style left right with
  | some (s, t) => some (reading.compareInstants s t)
  | none => left.compare? right

/-- Values that are taken as instants and denote some compare as these. -/
theorem compare?_of_instants {style : DateStyle} {reading : Reading} {left right : Value}
    {s t : Instant} (htakes : reading.takesInstants left right = true)
    (hleft : left.isNull = false) (hright : right.isNull = false)
    (hs : style.read? left = some s) (ht : style.read? right = some t) :
    reading.compare? style left right = some (reading.compareInstants s t) := by
  have htaken : reading.instants? style left right = some (s, t) := by
    simp only [instants?, htakes, hleft, hright, hs, ht]
    rfl
  rw [compare?, htaken]

/-- If one of two values denotes no instant, they compare as they are. -/
theorem compare?_of_no_instant {style : DateStyle} {reading : Reading} {left right : Value}
    (h : style.read? left = none ∨ style.read? right = none) :
    reading.compare? style left right = left.compare? right := by
  have hnone : reading.instants? style left right = none := by
    unfold instants?
    split
    · rcases h with h | h
      · rw [h]
        rfl
      · rw [h]
        cases style.read? left <;> rfl
    · rfl
  rw [compare?, hnone]

/-- Two values compare as an operator asks. Values that do not compare are different. -/
def holds (style : DateStyle) (reading : Reading) (left : Value) (op : Comparison)
    (right : Value) : Bool :=
  match reading.compare? style left right with
  | some ordering => op.accepts ordering
  | none => op == .neq

end Reading

/-- A test of a record. -/
inductive Test where
  /-- Two sides compare. -/
  | compare (left : Source) (op : Comparison) (right : Source) (reading : Reading)
  /-- The text of the value along a path has another text in it, whatever the letter
  case; the other text is in small letters. -/
  | contains (path : List String) (needle : String)
  /-- Tests joined by a connective. -/
  | group (connective : Connective) (members : List Test)
  /-- A test fails. -/
  | not (body : Test)
  /-- The items along a path pass a test. -/
  | quantified (path : List String) (quantifier : Quantifier) (body : Test)
  /-- Always or never. -/
  | const (verdict : Bool)
  deriving Inhabited

namespace Test

/-- The text of a value has another text, in small letters, in it. Null has no text. -/
def textContains (value : Value) (needle : String) : Bool :=
  !value.isNull && Text.isWithin needle (Text.lowercase value.text)

/-- The verdict of a quantifier on items, of which only records can pass. -/
def quantify (quantifier : Quantifier) (passes : Record → Bool) (items : List Value) : Bool :=
  let itemPasses (item : Value) : Bool :=
    match item with
    | .record fields => passes fields
    | _ => false
  match quantifier with
  | .all => items.all itemPasses
  | .any => items.any itemPasses

mutual

/-- A record passes a test. -/
def passes (style : DateStyle) : Test → Record → Bool
  | compare left op right reading, record =>
    reading.holds style (left.read record) op (right.read record)
  | contains path needle, record => textContains (record.read path) needle
  | group .and members, record => passesAll style members record
  | group .or members, record => passesAny style members record
  | not body, record => !passes style body record
  | quantified path quantifier body, record =>
    quantify quantifier (passes style body) ((record.read path).asList?.getD [])
  | const verdict, _ => verdict
termination_by structural test => test

/-- A record passes every one of some tests. -/
def passesAll (style : DateStyle) : List Test → Record → Bool
  | [], _ => true
  | test :: tests, record => passes style test record && passesAll style tests record
termination_by structural tests => tests

/-- A record passes at least one of some tests. -/
def passesAny (style : DateStyle) : List Test → Record → Bool
  | [], _ => false
  | test :: tests, record => passes style test record || passesAny style tests record
termination_by structural tests => tests

end

end Test

/-- The name of this engine in messages. -/
def engineName : String := "memory"

/-- The segments of a path that the schema has. -/
def checkedPath (schema : Schema) (type path : String) : Except Fault (List String) := do
  let _ ← schema.resolvePath type path
  Schema.pathSegments path

/-- The source of an operand. -/
def Source.ofOperand (schema : Schema) (type : String) : Operand → Except Fault Source
  | .field name => (checkedPath schema type name).map .path
  | .literal value => .ok (.fixed value)

/-- The test of a comparison. -/
def Test.ofComparison (schema : Schema) (type : String) (left : Operand) (op : Comparison)
    (right : Operand) (reading : Reading) : Except Fault Test := do
  let left ← Source.ofOperand schema type left
  let right ← Source.ofOperand schema type right
  return .compare left op right reading

mutual

/-- The test of a predicate on the records of a type. -/
def Test.ofPredicate (schema : Schema) : Predicate → String → Except Fault Test
  | .compare left op right, type => Test.ofComparison schema type left op right .values
  | .compareDates left op right timeless, type =>
    Test.ofComparison schema type left op right (if timeless then .days else .moments)
  | .contains path text, type => do
    return .contains (← checkedPath schema type path) (Text.lowercase text)
  | .shape .., _ => .ok (.const true)
  | .group connective members, type => do
    return .group connective (← Test.ofMembers schema members type)
  | .quantified path quantifier body, type => do
    let collection ← schema.resolveCollection type path
    let segments ← checkedPath schema type path
    return .quantified segments quantifier (← Test.ofPredicate schema body collection.target)
  | .not body, type => do return .not (← Test.ofPredicate schema body type)
  | .isOf expression typeName, _ =>
    .error (.unsupportedPredicate engineName (Predicate.isOf expression typeName).kind)
  | .const verdict, _ => .ok (.const verdict)
termination_by structural predicate => predicate

/-- The tests of the members of a group in order. -/
def Test.ofMembers (schema : Schema) : List Predicate → String → Except Fault (List Test)
  | [], _ => .ok []
  | member :: members, type => do
    let test ← Test.ofPredicate schema member type
    return test :: (← Test.ofMembers schema members type)
termination_by structural members => members

end

/-- The test of a filter, which may be missing. -/
def Test.ofPredicate? (schema : Schema) (type : String) :
    Option Predicate → Except Fault (Option Test)
  | some predicate => (Test.ofPredicate schema predicate type).map some
  | none => .ok none

end EntityQuery.Rows
