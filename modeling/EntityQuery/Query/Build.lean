import EntityQuery.Predicate.Validity
import EntityQuery.Query.Draft
import EntityQuery.Schema.Lookup
import EntityQuery.Settings

/-!
# From drafts to queries

Building a draft looks its names up in a schema and works out the trees: along the
entries of a projection, along every path that was asked for, and along the paths
that the filter and the order read and nothing else reaches. A query without any
choice of fields wants every field, and follows relationships only so far.
-/

namespace EntityQuery

namespace Schema

/-- The name of the key of a type in remote requests. -/
def keyNameOf (schema : Schema) (type : String) : Except Fault String := do
  let key ← schema.key type
  return key.remoteName?.getD key.name

/-- An empty tree of the records that a field leads to. -/
def freshTree (schema : Schema) (field : Field) : Except Fault SelectTree := do
  return .root field.target (← schema.keyNameOf field.target) field.flags?

/-- Want the field at a path, and whatever leads there. -/
def addPath (schema : Schema) : String → List String → SelectTree → Except Fault SelectTree
  | _, [], tree => .ok tree
  | type, [last], tree => do
    let _ ← schema.resolve type last
    return tree.addSelect last
  | type, segment :: rest, tree => do
    let field ← schema.resolve type segment
    if !field.isRelationship then throw (.notRelationship type segment)
    let fresh ← schema.freshTree field
    tree.expandWith segment fresh (addPath schema field.target rest)

mutual

/-- Want a field of a projection, and the fields below it. -/
def addProjected (schema : Schema) (type : String) :
    ProjectedField → SelectTree → Except Fault SelectTree
  | ⟨name, kind, _, fields⟩, tree => do
    let field ← schema.resolve type name
    match kind with
    | .scalar => return tree.addSelect name
    | .belongsTo | .hasMany =>
      if !field.isRelationship then throw (.notRelationship type name)
      let fresh ← schema.freshTree field
      tree.expandWith name fresh (addProjectedAll schema field.target fields)
termination_by structural projected => projected

/-- Want the fields of a projection in order. -/
def addProjectedAll (schema : Schema) (type : String) :
    List ProjectedField → SelectTree → Except Fault SelectTree
  | [], tree => .ok tree
  | field :: fields, tree => do
    addProjectedAll schema type fields (← addProjected schema type field tree)
termination_by structural fields => fields

end

/-- Want every field of a type, following so many relationships in a row. -/
def addClosure (schema : Schema) : Nat → String → SelectTree → Except Fault SelectTree
  | 0, type, tree => do
    return (← schema.fields type).foldl (fun tree field => tree.addSelect field.name) tree
  | depth + 1, type, tree => do
    (← schema.fields type).foldlM (fun tree field => do
      if field.isRelationship then
        let fresh ← schema.freshTree field
        tree.expandWith field.name fresh (addClosure schema depth field.target)
      else return tree.addSelect field.name) tree

end Schema

namespace Draft

/-- The origin of the wanted fields. A projection counts before a list of paths. -/
def selectMode (draft : Draft) : SelectMode :=
  match draft.projectionName, draft.select with
  | some _, _ => .projection
  | none, _ :: _ => .explicit
  | none, [] => .all

/-- Want the fields of the projection, if one was asked for. -/
def addProjection (draft : Draft) (schema : Schema) (type : String) (tree : SelectTree) :
    Except Fault SelectTree :=
  match draft.projectionName with
  | some name => do
    schema.addProjectedAll type (← schema.projection type name).fields tree
  | none => .ok tree

/-- Want the fields at paths in order. -/
def addPaths (schema : Schema) (type : String) (paths : List String) (tree : SelectTree) :
    Except Fault SelectTree :=
  paths.foldlM (fun tree path => do
    schema.addPath type (← Schema.pathSegments path) tree) tree

/-- Want the fields at paths that are not reached yet. -/
def addMissingPaths (schema : Schema) (type : String) (selected : SelectTree)
    (paths : List String) (tree : SelectTree) : Except Fault SelectTree :=
  paths.foldlM (fun tree path => do
    let segments ← Schema.pathSegments path
    if selected.covers segments || tree.covers segments then return tree
    else schema.addPath type segments tree) tree

/-- Check the filter, if there is one. -/
def checkFilter : Option Predicate → Except Fault Unit
  | some predicate => predicate.validate
  | none => .ok ()

/-- The tree that the missing paths are added to: everything within reach when no choice
of fields was made, nothing but the identity otherwise. -/
def reachTree (draft : Draft) (schema : Schema) (settings : BuildSettings) (root : SelectTree) :
    Except Fault SelectTree :=
  if draft.selectMode = .all then schema.addClosure settings.expandDepth root.entityType root
  else .ok root

/-- The query of a draft without a fault, for its type. -/
def buildFor (draft : Draft) (schema : Schema) (settings : BuildSettings) (type : String) :
    Except Fault Query := do
  let keyName ← schema.keyNameOf type
  checkFilter draft.predicate
  let selectStart ← draft.addProjection schema type (.root type keyName)
  let selectTree ← addPaths schema type draft.select selectStart
  let extendStart ← draft.reachTree schema settings (.root type keyName)
  let extendTree ← addMissingPaths schema type selectTree draft.referencedPaths extendStart
  return { entityType := type, identity := draft.identity,
           projectionName := draft.projectionName, predicate := draft.predicate,
           order := draft.order, top := draft.top, skip := draft.skip, count := draft.count,
           dataType := draft.dataType, selectMode := draft.selectMode, selectTree, extendTree,
           customParams := draft.customParams }

/-- The query of a draft, or its first fault. -/
def build (draft : Draft) (schema : Schema) (settings : BuildSettings := {}) :
    Except Fault Query :=
  match draft.fault, draft.entityType with
  | some fault, _ => .error fault
  | none, none => .error (.invalidArguments .noQueriedType)
  | none, some type => draft.buildFor schema settings type

end Draft

end EntityQuery
