import EntityQuery.Query.Basic
import EntityQuery.Store.IndexRange

/-!
# Access plans

A store answers a query in one of three ways. A single comparison of an own field with
a value is a range of the index of that field. A query for one identity looks that
identity up and tests what it finds. Everything else goes through the whole table.
-/

namespace EntityQuery.Store

/-- How a store is asked for the records of a query. -/
inductive AccessPlan where
  /-- A range of the index of a field; its records need no further test. -/
  | indexRange (field : String) (range : IndexRange)
  /-- The whole table, tested when `filtered`. -/
  | scan (filtered : Bool)
  /-- The records with an identity, which must pass a further test when `filtered`. -/
  | lookup (identity : Value) (filtered : Bool)

namespace AccessPlan

/-- The name of the kind of a plan. -/
def kind : AccessPlan → String
  | indexRange .. => "index_range"
  | scan _ => "scan"
  | lookup .. => "id_then_filter"

/-- The mark of a plan with a further test. -/
def filterMark (filtered : Bool) : String := if filtered then " + filter" else ""

/-- The text of a plan. -/
def text : AccessPlan → String
  | indexRange field range => "index " ++ field ++ " " ++ range.text
  | scan filtered => "scan" ++ filterMark filtered
  | lookup identity filtered => "key " ++ identity.text ++ filterMark filtered

/-- The index range of a predicate that needs nothing else: a comparison of a field of
the record itself with a value other than null. -/
def rangeOf? : Predicate → Option AccessPlan
  | .compare (.field path) op (.literal value) =>
    if value.isNull || path.toList.contains '.' then none
    else some (indexRange path ⟨op, value⟩)
  | _ => none

/-- The plan of a query. -/
def ofQuery (query : Query) : AccessPlan :=
  match query.identity, query.predicate with
  | some identity, predicate => lookup identity predicate.isSome
  | none, some predicate => (rangeOf? predicate).getD (scan true)
  | none, none => scan false

end AccessPlan

end EntityQuery.Store
