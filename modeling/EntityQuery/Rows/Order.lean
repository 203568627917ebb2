import EntityQuery.OrderClause
import EntityQuery.Rows.Test
import EntityQuery.StableSort

/-!
# Sorting records

An order compares records key by key; a later key decides where the earlier ones tie.
-/

namespace EntityQuery.Rows

/-- A key whose path has been looked up. -/
structure Key where
  /-- The path of the values that are compared. -/
  path : List String
  /-- The greatest value comes first. -/
  descending : Bool
  deriving Repr, DecidableEq

/-- Compare two records by one key. -/
def Key.compare (key : Key) (a b : Record) : Ordering :=
  let ordering := (a.read key.path).sortCompare (b.read key.path)
  if key.descending then ordering.swap else ordering

/-- An order of records. -/
structure Order where
  /-- The keys, the most important first. -/
  keys : List Key := []
  deriving Repr, DecidableEq

namespace Order

/-- Compare two records by keys. -/
def compareBy : List Key → Record → Record → Ordering
  | [], _, _ => .eq
  | key :: keys, a, b => (key.compare a b).then (compareBy keys a b)

/-- Compare two records. -/
def compare (order : Order) (a b : Record) : Ordering := compareBy order.keys a b

/-- Sort records; those that tie keep their order. -/
def sort (order : Order) (records : List Record) : List Record :=
  stableSort order.compare records

/-- The key of a sort key of a clause. -/
def keyOf (schema : Schema) (type : String) (key : SortKey) : Except Fault Key := do
  return ⟨← checkedPath schema type key.path, key.isDescending⟩

/-- The order of a clause on the records of a type. -/
def ofClause (schema : Schema) (type : String) (clause : OrderClause) : Except Fault Order := do
  return ⟨← clause.keys.mapM (keyOf schema type)⟩

/-- The order of a clause, which may be missing. -/
def ofClause? (schema : Schema) (type : String) : Option OrderClause → Except Fault Order
  | some clause => ofClause schema type clause
  | none => .ok {}

end Order

end EntityQuery.Rows
