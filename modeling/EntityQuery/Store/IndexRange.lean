import EntityQuery.Comparison
import EntityQuery.Value.Json
import EntityQuery.Value.Order

/-!
# Index ranges

An index range is the part of an index on one side of a bound. Null is never indexed,
and values that do not compare with the bound are in no range.
-/

namespace EntityQuery.Store

/-- The indexed values that compare with a bound as an operator asks. -/
structure IndexRange where
  /-- The operator, with the indexed value on its left. -/
  op : Comparison
  /-- The bound. -/
  bound : Value

namespace IndexRange

/-- The name of the kind of a range. -/
def name (range : IndexRange) : String :=
  match range.op with
  | .eq => "equals"
  | .neq => "notEqual"
  | .gt => "above"
  | .lt => "below"
  | .geq => "aboveOrEqual"
  | .leq => "belowOrEqual"

/-- The text of a range: its name and its bound. -/
def text (range : IndexRange) : String := range.name ++ " " ++ range.bound.text

/-- An indexed value is in a range. -/
def contains (range : IndexRange) (value : Value) : Bool :=
  !value.isNull &&
    match value.compare? range.bound with
    | some ordering => range.op.accepts ordering
    | none => false

/-- The value under which an item of a list is indexed: a record by its identity. -/
def itemKey (item : Value) : Value :=
  match item with
  | .record fields => (Entries.get? fields identityField).getD item
  | _ => item

/-- A range has a value in it, or an item of a list. -/
def hits (range : IndexRange) : Value → Bool
  | .list items => items.any fun item => range.contains (itemKey item)
  | value => range.contains value

/-- Null is in no range. -/
theorem contains_null (range : IndexRange) : range.contains .null = false := rfl

end IndexRange

end EntityQuery.Store
