import EntityQuery.Query.Basic

/-!
# Drafts

A draft collects the options of a query step by step. The first step with arguments
that make no sense is remembered; from then on the steps that check their arguments
change nothing, and the draft gives that fault instead of a query.
-/

namespace EntityQuery

/-- One argument of a filter whose arguments are given as a list. -/
inductive WhereArgument where
  /-- A whole predicate. -/
  | predicate (predicate : Predicate)
  /-- The path of an attribute. -/
  | path (path : String)
  /-- An operator. -/
  | op (op : Comparison)
  /-- A fixed value. -/
  | value (value : Value)
  deriving Inhabited

/-- A query in the making. -/
structure Draft where
  /-- The queried type. -/
  entityType : Option String := none
  /-- The identity of the one wanted record. -/
  identity : Option Value := none
  /-- The filter so far. -/
  predicate : Option Predicate := none
  /-- The order. -/
  order : Option OrderClause := none
  /-- The greatest number of records. -/
  top : Option Nat := none
  /-- The number of records to pass over. -/
  skip : Option Nat := none
  /-- The total count is wanted. -/
  count : Bool := false
  /-- The paths that were asked for, each once. -/
  select : List String := []
  /-- The projection that was asked for. -/
  projectionName : Option String := none
  /-- The derived type that the records must have. -/
  dataType : Option String := none
  /-- Parameters that are passed through. -/
  customParams : Entries String := []
  /-- The first fault. -/
  fault : Option Fault := none

/-- A step in the making of a query. -/
inductive Step where
  /-- Query the records of a type. -/
  | ofType (entityType : String)
  /-- Want the record with an identity. -/
  | byIdentity (identity : Value)
  /-- Filter by a predicate. -/
  | filter (predicate : Predicate)
  /-- Filter by a list of arguments: a predicate, or a path, an operator and a value. -/
  | filterBy (arguments : List WhereArgument)
  /-- Sort by a clause given as text. -/
  | orderBy (spec : String)
  /-- Limit the number of records. -/
  | top (n : Nat)
  /-- Pass over the first records. -/
  | skip (n : Nat)
  /-- Want the total count. -/
  | count
  /-- Want the fields at paths that stand between commas. -/
  | select (fields : String)
  /-- Want the fields of a projection. -/
  | projection (name : String)
  /-- Want records of a derived type only. -/
  | ofDataType (typeName : String)
  /-- Pass parameters through. -/
  | custom (params : List (String × String))

namespace Draft

/-- Join a condition to the filter. -/
def addPredicate (draft : Draft) (predicate : Predicate) : Draft :=
  { draft with predicate := Predicate.conjoin? draft.predicate (some predicate) }

/-- The predicate of a list of arguments. -/
def predicateOf : List WhereArgument → Except Fault Predicate
  | [.predicate predicate] => .ok predicate
  | [.path path, .op op, .value value] => .ok (Predicate.simple path op value)
  | arguments => .error (.invalidArguments (.whereArguments arguments.length))

/-- The paths of a list, blank ones passed over. -/
def selectPaths (fields : String) : List String :=
  ((Text.pieces ',' fields).map Text.trim).filter (!·.isEmpty)

/-- A step that checks its arguments: it changes nothing after a fault, and its own
fault is remembered. -/
def attempt (draft : Draft) (change : Except Fault Draft) : Draft :=
  match draft.fault with
  | some _ => draft
  | none =>
    match change with
    | .ok changed => changed
    | .error fault => { draft with fault := some fault }

/-- Take a step. -/
def step (draft : Draft) : Step → Draft
  | .ofType entityType => { draft with entityType := some entityType }
  | .byIdentity identity =>
    draft.attempt (if identity.isNull then .error (.invalidArguments .nullIdentity)
      else .ok { draft with identity := some identity })
  | .filter predicate => draft.attempt (.ok (draft.addPredicate predicate))
  | .filterBy arguments => draft.attempt ((predicateOf arguments).map draft.addPredicate)
  | .orderBy spec =>
    draft.attempt ((OrderClause.parse spec).map fun order => { draft with order := some order })
  | .top n => { draft with top := some n }
  | .skip n => { draft with skip := some n }
  | .count => { draft with count := true }
  | .select fields =>
    draft.attempt (.ok { draft with
      select := (selectPaths fields).foldl SelectTree.addName draft.select })
  | .projection name => { draft with projectionName := some name }
  | .ofDataType typeName => { draft with dataType := some typeName }
  | .custom params =>
    { draft with customParams :=
      params.foldl (fun entries param => entries.insert param.1 param.2) draft.customParams }

/-- Take steps one after the other. -/
def steps (draft : Draft) (steps : List Step) : Draft := steps.foldl step draft

/-- The draft of a list of steps. -/
def ofSteps (steps : List Step) : Draft := Draft.steps {} steps

/-- The paths that the filter and the order read. -/
def referencedPaths (draft : Draft) : List String :=
  (draft.predicate.map Predicate.paths).getD [] ++
    (draft.order.map fun order => order.keys.map SortKey.path).getD []

end Draft

end EntityQuery
