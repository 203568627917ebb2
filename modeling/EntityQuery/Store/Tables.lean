import EntityQuery.Rows.Pipeline
import EntityQuery.Store.AccessPlan
import EntityQuery.Store.Layout

/-!
# Tables

A store keeps the records of every type in a table, in the order they were put in, and
answers requests for a whole table or for a range of an index.
-/

namespace EntityQuery

/-- The tables of a store, by type. -/
structure Store where
  /-- The records of every type. -/
  tables : Entries (List Record) := []

namespace Store

/-- What a store is asked for. -/
inductive Request where
  /-- A whole table. -/
  | scan (entityType : String)
  /-- The records of a table in a range of the index of a field. -/
  | range (entityType field : String) (range : IndexRange)

/-- The text of a request. -/
def Request.text : Request → String
  | scan entityType => "scan " ++ entityType
  | range entityType field bounds => "range " ++ entityType ++ " " ++ field ++ " " ++ bounds.text

/-- A store with an empty table for every layout. -/
def ofLayouts (layouts : Entries Layout) : Store := ⟨layouts.mapContents fun _ => []⟩

/-- Replace the records of a table. -/
def withTable (store : Store) (entityType : String) (records : List Record) : Store :=
  ⟨store.tables.insert entityType records⟩

/-- Put a record at the end of a table, which is made if there is none. -/
def insert (store : Store) (entityType : String) (record : Record) : Store :=
  store.withTable entityType ((store.tables.get? entityType).getD [] ++ [record])

/-- The records of a table. -/
def table (store : Store) (entityType : String) : Except Fault (List Record) :=
  match store.tables.get? entityType with
  | some records => .ok records
  | none => .error (.store ("no table for " ++ entityType))

/-- Answer a request. -/
def answer (store : Store) : Request → Except Fault (List Record)
  | .scan entityType => store.table entityType
  | .range entityType field range =>
    return (← store.table entityType).filter fun record => range.hits (record.read [field])

/-- What a plan asks for. -/
def AccessPlan.request (plan : AccessPlan) (entityType : String) : Request :=
  match plan with
  | indexRange field range => .range entityType field range
  | scan _ => .scan entityType
  | lookup identity _ => .range entityType identityField ⟨.eq, identity⟩

/-- The records that a plan still has to test go through the whole pipeline. -/
def AccessPlan.complete (plan : AccessPlan) (pipeline : Rows.Pipeline) (records : List Record) :
    List Record :=
  match plan with
  | indexRange .. => pipeline.finish records
  | scan _ | lookup .. => pipeline.run records

/-- The one request that a query makes. -/
def requestOf (query : Query) : Request := (AccessPlan.ofQuery query).request query.entityType

/-- Run a query. Nothing is asked of the store unless the query can be run. -/
def run (store : Store) (schema : Schema) (dates : DateStyle) (query : Query) :
    Except Fault (List Record) := do
  let pipeline ← Rows.Pipeline.ofQuery schema dates query
  let records ← store.answer (requestOf query)
  return (AccessPlan.ofQuery query).complete pipeline records

end Store

end EntityQuery
