import EntityQuery.Query.Basic
import EntityQuery.Remote.Selection
import EntityQuery.Text.Percent

/-!
# Remote requests

A request holds one text for every option of a query that is used, and the parameters
that are passed through. As a query string it is a list of keys and values, all
percent-encoded, except that the common beginning of the standard keys stands as it is.
-/

namespace EntityQuery.Remote

/-- The options of a request. -/
structure Request where
  /-- The filter. -/
  filter : Option String := none
  /-- The sort keys. -/
  orderBy : Option String := none
  /-- The number of records to pass over. -/
  skip : Option Nat := none
  /-- The greatest number of records. -/
  top : Option Nat := none
  /-- The total count is wanted. -/
  count : Bool := false
  /-- The select list. -/
  select : Option String := none
  /-- The expand list. -/
  expand : Option String := none
  /-- Parameters that are passed through. -/
  custom : Entries String := []
  /-- The beginning of the standard keys. -/
  keyPrefix : String := ""
  deriving Repr, DecidableEq

namespace Request

/-- The standard options that are used, with their keys, in their fixed order. -/
def standardPairs (request : Request) : List (String × String) :=
  let pair (name : String) (text : Option String) : List (String × String) :=
    text.toList.map fun text => (request.keyPrefix ++ name, text)
  pair "filter" request.filter ++ pair "orderby" request.orderBy ++
    pair "skip" (request.skip.map toString) ++ pair "top" (request.top.map toString) ++
    pair "count" (if request.count then some "true" else none) ++
    pair "select" request.select ++ pair "expand" request.expand

/-- All keys and values: the standard ones, then those that are passed through. -/
def pairs (request : Request) : List (String × String) :=
  request.standardPairs ++ request.custom

/-- Encode a key. The common beginning of the standard keys stands as it is. -/
def encodeKey (request : Request) (key : String) : String :=
  let start := request.keyPrefix.toList
  if !start.isEmpty && start.isPrefixOf key.toList then
    request.keyPrefix ++ Text.percentEncode (String.ofList (key.toList.drop start.length))
  else Text.percentEncode key

/-- One key and its value, encoded. -/
def encodePair (request : Request) (pair : String × String) : String :=
  request.encodeKey pair.1 ++ "=" ++ Text.percentEncode pair.2

/-- The query string without its question mark. -/
def queryString (request : Request) : String :=
  String.intercalate "&" (request.pairs.map request.encodePair)

/-- Put the query string behind an address, which may have one already. -/
def appendTo (request : Request) (base : String) : String :=
  let query := request.queryString
  if query.isEmpty then base
  else if base.toList.contains '?' then base ++ "&" ++ query
  else base ++ "?" ++ query

end Request

/-- A text, unless it is empty. -/
def nonEmpty? (text : String) : Option String := if text.isEmpty then none else some text

/-- Drop all slashes at the end. -/
def trimSlashes (base : String) : String :=
  String.ofList (base.toList.reverse.dropWhile (· == '/')).reverse

namespace Context

/-- The request of a query. -/
def request (context : Context) (query : Query) : Except Fault Request := do
  let filter ← query.effectivePredicate.mapM (context.filterText query.entityType)
  let orderBy ← query.order.mapM (context.orderText query.entityType)
  let selection ← context.selection query.fetchTree
  return { filter, orderBy, skip := query.skip, top := query.top, count := query.count,
           select := nonEmpty? selection.selectText,
           expand := nonEmpty? (selection.expandText context.settings.paramPrefix),
           custom := query.customParams, keyPrefix := context.settings.paramPrefix }

/-- The address of the queried collection, narrowed to a derived type if one is asked for. -/
def resource (context : Context) (base : String) (model : Model) (query : Query) : String :=
  let collection := model.remoteName.getD (context.settings.nameCase.apply model.name)
  let address := trimSlashes base ++ "/" ++ collection
  match query.dataType with
  | some typeName => address ++ "/" ++ context.settings.qualify typeName
  | none => address

/-- The whole address of a query. -/
def url (context : Context) (base : String) (query : Query) : Except Fault String := do
  let model ← context.schema.model query.entityType
  let request ← context.request query
  return request.appendTo (context.resource base model query)

end Context

end EntityQuery.Remote
