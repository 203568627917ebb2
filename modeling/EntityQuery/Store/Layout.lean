import EntityQuery.Query.Basic
import EntityQuery.Schema.Lookup

/-!
# Index layouts

The layout of a table lists the fields that a store has to index for a query: every
field that is fetched, at whatever place of the select tree its type stands. A
relationship to many records is indexed item by item.
-/

namespace EntityQuery.Store

/-- An indexed field. -/
structure IndexedField where
  /-- The name of the field. -/
  name : String
  /-- Every item of the field is indexed. -/
  multiEntry : Bool
  deriving Repr, DecidableEq

/-- The text of an indexed field. -/
def IndexedField.text (field : IndexedField) : String :=
  if field.multiEntry then "*" ++ field.name else field.name

/-- The indexes of a table besides the one of the identity. -/
structure Layout where
  /-- The indexed fields in the order they were found. -/
  fields : List IndexedField := []
  deriving Repr, DecidableEq

namespace Layout

/-- Index a field. The identity always has an index, and no field has two. -/
def add (layout : Layout) (field : IndexedField) : Layout :=
  if field.name = identityField ∨ layout.fields.any (·.name == field.name) then layout
  else { layout with fields := layout.fields ++ [field] }

/-- The text of a layout, beginning with the identity. -/
def text (layout : Layout) : String :=
  String.intercalate "," (identityField :: layout.fields.map IndexedField.text)

/-- The fields that are indexed item by item. -/
def multiEntryNames (layout : Layout) : List String :=
  (layout.fields.filter IndexedField.multiEntry).map IndexedField.name

end Layout

/-- The index of a field of a type. -/
def indexedField (schema : Schema) (type name : String) : Except Fault IndexedField := do
  let field ← schema.resolve type name
  return ⟨name, field.kind == .hasMany⟩

/-- The layout of a type with the fields that a node of a tree wants. -/
def layoutWith (layouts : Entries Layout) (type : String) (fields : List IndexedField) : Layout :=
  fields.foldl Layout.add ((layouts.get? type).getD {})

/-- Add what one node of a tree needs to the layouts of the tables. -/
def addNode (schema : Schema) (layouts : Entries Layout) (node : SelectTree) :
    Except Fault (Entries Layout) := do
  let fields ← node.select.mapM (indexedField schema node.entityType)
  return layouts.insert node.entityType (layoutWith layouts node.entityType fields)

mutual

/-- Add what a tree needs. -/
def addLayouts (schema : Schema) : SelectTree → Entries Layout → Except Fault (Entries Layout)
  | ⟨entityType, keyName, select, expand, relationship⟩, layouts => do
    addChildLayouts schema expand
      (← addNode schema layouts ⟨entityType, keyName, select, expand, relationship⟩)
termination_by structural tree => tree

/-- Add what the children of a tree need. -/
def addChildLayouts (schema : Schema) :
    List (String × SelectTree) → Entries Layout → Except Fault (Entries Layout)
  | [], layouts => .ok layouts
  | (_, child) :: rest, layouts => do
    addChildLayouts schema rest (← addLayouts schema child layouts)
termination_by structural children => children

end

/-- The layouts of the tables that a query reads. -/
def layoutsOf (schema : Schema) (query : Query) : Except Fault (Entries Layout) :=
  addLayouts schema query.fetchTree []

end EntityQuery.Store
