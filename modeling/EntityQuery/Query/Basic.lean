import EntityQuery.OrderClause
import EntityQuery.Predicate.Json
import EntityQuery.SelectTree

/-!
# Queries

A query is a finished description: which records of which type are wanted, in which
order, how many of them, and which of their fields. Two trees say what to fetch: one
for what was asked for, one for what the filter and the order need besides.
-/

namespace EntityQuery

/-- Where the wanted fields come from. -/
inductive SelectMode where
  /-- A named projection. -/
  | projection
  /-- A list of paths. -/
  | explicit
  /-- No choice was made, so everything within reach is wanted. -/
  | all
  deriving Repr, DecidableEq

/-- The name of a select mode. -/
def SelectMode.name : SelectMode → String
  | projection => "projection"
  | explicit => "explicit"
  | all => "all"

/-- A finished query. -/
structure Query where
  /-- The queried type. -/
  entityType : String
  /-- The identity of the one wanted record. -/
  identity : Option Value
  /-- The projection that was asked for. -/
  projectionName : Option String
  /-- The filter. -/
  predicate : Option Predicate
  /-- The order. -/
  order : Option OrderClause
  /-- The greatest number of records. -/
  top : Option Nat
  /-- The number of records to pass over. -/
  skip : Option Nat
  /-- The total count is wanted. -/
  count : Bool
  /-- The derived type that the records must have. -/
  dataType : Option String
  /-- Where the wanted fields come from. -/
  selectMode : SelectMode
  /-- The fields that were asked for. -/
  selectTree : SelectTree
  /-- The fields that the filter and the order need, or everything within reach. -/
  extendTree : SelectTree
  /-- Parameters that are passed through. -/
  customParams : Entries String

namespace Query

/-- Everything that must be fetched. -/
def fetchTree (query : Query) : SelectTree := query.selectTree.merged query.extendTree

/-- The shape of the answer: what was asked for, or all that was fetched. -/
def outputTree (query : Query) : SelectTree :=
  match query.selectMode with
  | .all => query.fetchTree
  | .projection | .explicit => query.selectTree

/-- The condition that a record has the wanted identity. -/
def identityPredicate (query : Query) : Option Predicate :=
  query.identity.map fun value => Predicate.simple identityField .eq value

/-- The filter together with the wanted identity. -/
def effectivePredicate (query : Query) : Option Predicate :=
  Predicate.conjoin? query.predicate query.identityPredicate

/-- The document of something that may be absent or may have no document. -/
def documentOf {α : Type} (toJson? : α → Option Json) : Option α → Option Json
  | none => some .null
  | some content => toJson? content

/-- The document of a query, if its values have one. -/
def toJson? (query : Query) : Option Json := do
  let identity ← documentOf Value.toTagged? query.identity
  let predicate ← documentOf Predicate.toJson? query.predicate
  return .object [
    ("count", .bool query.count),
    ("custom_params", .object (query.customParams.mapContents .string)),
    ("data_type", Json.ofString? query.dataType),
    ("entity_type", .string query.entityType),
    ("extend_tree", query.extendTree.toJson),
    ("id", identity),
    ("order", (query.order.map OrderClause.toJson).getD .null),
    ("predicate", predicate),
    ("projection_name", Json.ofString? query.projectionName),
    ("select_mode", .string query.selectMode.name),
    ("select_tree", query.selectTree.toJson),
    ("skip", Json.ofNat? query.skip),
    ("top", Json.ofNat? query.top)]

end Query

end EntityQuery
