import EntityQuery.Query.Basic
import EntityQuery.Rows.Order
import EntityQuery.Rows.Shape

/-!
# Running queries on records

A query on a list of records has four stages: test, sort, page, shape.
-/

namespace EntityQuery.Rows

/-- Pass over the first records and limit the number of the rest. -/
def paginate (skip top : Option Nat) (records : List Record) : List Record :=
  let rest := records.drop (skip.getD 0)
  match top with
  | some n => rest.take n
  | none => rest

/-- The stages of a query. -/
structure Pipeline where
  /-- How dates are read. -/
  dates : DateStyle
  /-- The test, if the query has a filter. -/
  test : Option Test
  /-- The order. -/
  order : Order
  /-- The number of records to pass over. -/
  skip : Option Nat
  /-- The greatest number of records. -/
  top : Option Nat
  /-- The wanted fields. -/
  tree : SelectTree

namespace Pipeline

/-- The stages of a query. The filter is looked up before the order. -/
def ofQuery (schema : Schema) (dates : DateStyle) (query : Query) : Except Fault Pipeline := do
  let test ← Test.ofPredicate? schema query.entityType query.effectivePredicate
  let order ← Order.ofClause? schema query.entityType query.order
  return { dates, test, order, skip := query.skip, top := query.top, tree := query.outputTree }

/-- A record passes the test; without a test every record does. -/
def admits (pipeline : Pipeline) (record : Record) : Bool :=
  match pipeline.test with
  | some test => test.passes pipeline.dates record
  | none => true

/-- Sort, page and shape records that have been tested. -/
def finish (pipeline : Pipeline) (records : List Record) : List Record :=
  (paginate pipeline.skip pipeline.top (pipeline.order.sort records)).map (shape pipeline.tree)

/-- Test, sort, page and shape records. -/
def run (pipeline : Pipeline) (records : List Record) : List Record :=
  pipeline.finish (records.filter pipeline.admits)

end Pipeline

end EntityQuery.Rows
