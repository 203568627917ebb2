import EntityQuery.Query.Draft

/-!
# Query documents

A query document names the options of a query; all of them may be left out. A filter is
an array: a single object in it is the document of a predicate, otherwise it lists a
path, an operator and a value.
-/

namespace EntityQuery

/-- Why a query document cannot be read. -/
inductive DocumentFault where
  /-- The document does not have the form of a query. -/
  | malformed (detail : String)
  /-- What the document says makes no sense. -/
  | fault (fault : Fault)
  deriving Repr, DecidableEq

/-- The options of a query as a document gives them. -/
structure QueryDocument where
  /-- The queried type. -/
  entityType : String
  /-- The identity of the one wanted record. -/
  identity : Option Value
  /-- The arguments of the filter. -/
  filter : Option (List Json)
  /-- The order, as text. -/
  order : Option String
  /-- The greatest number of records. -/
  top : Option Nat
  /-- The number of records to pass over. -/
  skip : Option Nat
  /-- The total count is wanted. -/
  count : Bool
  /-- The wanted paths, as text. -/
  select : Option String
  /-- The wanted projection. -/
  projection : Option String
  /-- The derived type that the records must have. -/
  dataType : Option String
  /-- Parameters that are passed through. -/
  custom : Entries String

namespace QueryDocument

/-- Read an identity. -/
def readIdentity (document : Document) : Except String Value :=
  .ok (Value.ofJson document.content)

/-- Read the arguments of a filter. -/
def readFilter (document : Document) : Except String (List Json) := do
  return (← document.toItems).map Document.content

/-- The names of the options in order. -/
def optionNames : List String :=
  ["from", "id", "where", "order_by", "top", "skip", "count", "select", "projection",
    "data_type", "custom"]

/-- Read the options of a query. -/
def ofDocument (document : Document) : Except String QueryDocument := do
  let get ← document.onlyFields optionNames
  let text (name : String) : Except String (Option String) :=
    get.withDefault name (Document.toOption Document.toText) none
  let number (name : String) : Except String (Option Nat) :=
    get.withDefault name (Document.toOption Document.toNat) none
  return { entityType := ← get.withDefault "from" Document.toText ""
           identity := ← get.withDefault "id" (Document.toOption readIdentity) none
           filter := ← get.withDefault "where" (Document.toOption readFilter) none
           order := ← text "order_by"
           top := ← number "top"
           skip := ← number "skip"
           count := ← get.withDefault "count" Document.toBool false
           select := ← text "select"
           projection := ← text "projection"
           dataType := ← text "data_type"
           custom := ← get.withDefault "custom" (Document.toEntries Document.toText) [] }

/-- The options of a query document. -/
def ofJson (document : Json) : Except String QueryDocument := ofDocument (.ofJson document)

/-- The arguments of a filter that follow the path and the operator. -/
def valueArguments (items : List Json) : List WhereArgument :=
  items.map fun item => .value (Value.ofJson item)

/-- The arguments of a filter that follow the path: a text in the second place is an
operator. -/
def argumentsAfterPath : List Json → Except Fault (List WhereArgument)
  | .string op :: rest => return .op (← Comparison.parse op) :: valueArguments rest
  | items => .ok (valueArguments items)

/-- The arguments of a filter in order: a text in the first place is a path. -/
def argumentsOfItems : List Json → Except Fault (List WhereArgument)
  | .string path :: rest => return .path path :: (← argumentsAfterPath rest)
  | item :: rest => return .value (Value.ofJson item) :: (← argumentsAfterPath rest)
  | [] => .ok []

/-- The arguments of a filter. -/
def filterArguments : List Json → Except DocumentFault (List WhereArgument)
  | [.object members] =>
    match Predicate.ofJson (Json.object members).canonical with
    | .ok predicate => .ok [.predicate predicate]
    | .error detail => .error (.malformed detail)
  | items => (argumentsOfItems items).mapError .fault

/-- The steps that make the query. -/
def steps (document : QueryDocument) : Except DocumentFault (List Step) := do
  let filter ← document.filter.mapM fun items => Step.filterBy <$> filterArguments items
  return [.ofType document.entityType] ++ (document.identity.map Step.byIdentity).toList ++
    filter.toList ++ (document.order.map Step.orderBy).toList ++
    (document.top.map Step.top).toList ++ (document.skip.map Step.skip).toList ++
    (if document.count then [.count] else []) ++ (document.select.map Step.select).toList ++
    (document.projection.map Step.projection).toList ++
    (document.dataType.map Step.ofDataType).toList ++ [.custom document.custom]

end QueryDocument

end EntityQuery
