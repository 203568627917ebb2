import EntityQuery.Fault
import EntityQuery.Document.Forms
import EntityQuery.Json.Reader
import EntityQuery.Schema.Basic
import EntityQuery.Toml.Reader

/-!
# Schemas as documents

A schema document lists models. Of a model only the name is required. The type of an
attribute stands among the members of the attribute itself, and an enumeration names
its type there too. Members that no field asks for are passed over, in a JSON text even
if they have no value; those of an attribute are set aside first, so they need one.
-/

namespace EntityQuery

/-- The key types by name. -/
def KeyType.byName : List (String × KeyType) :=
  [("guid", guid), ("string", string), ("number", number)]

/-- The name of a key type. -/
def KeyType.name : KeyType → String
  | guid => "guid"
  | string => "string"
  | number => "number"

/-- The name of an attribute type. -/
def AttributeType.name : AttributeType → String
  | string => "string"
  | number => "number"
  | decimal => "decimal"
  | boolean => "boolean"
  | date => "date"
  | guid => "guid"
  | enumeration _ => "enum"

/-- The attribute types without a type name of their own. -/
def AttributeType.byName : List (String × AttributeType) :=
  [("string", string), ("number", number), ("decimal", decimal), ("boolean", boolean),
    ("date", date), ("guid", guid)]

/-- The names of the attribute types in order. -/
def AttributeType.names : List String := byName.map Prod.fst ++ ["enum"]

/-- The kinds of fields by name. -/
def FieldKind.byName : List (String × FieldKind) :=
  [("attribute", scalar), ("belongs_to", belongsTo), ("has_many", hasMany)]

/-- The name of a kind of fields. -/
def FieldKind.name : FieldKind → String
  | scalar => "attribute"
  | belongsTo => "belongs_to"
  | hasMany => "has_many"

/-- The kinds of fields by their names in projections. -/
def FieldKind.byProjectionName : List (String × FieldKind) :=
  [("attr", scalar), ("belongs_to", belongsTo), ("has_many", hasMany)]

/-- The name of a kind of fields in projections. -/
def FieldKind.projectionName : FieldKind → String
  | scalar => "attr"
  | belongsTo => "belongs_to"
  | hasMany => "has_many"

/-- The members that give the type of an attribute. -/
def AttributeType.members : AttributeType → List (String × Json)
  | enumeration typeName => [("type", .string "enum"), ("type_name", .string typeName)]
  | type => [("type", .string type.name)]

/-- The document of an attribute. -/
def Attribute.toJson (declaration : Attribute) : Json :=
  .object ([("name", .string declaration.name),
    ("remote_name", Json.ofString? declaration.remoteName)] ++ declaration.type.members)

/-- The document of a relationship. -/
def Relationship.toJson (relationship : Relationship) : Json :=
  .object [("is_async", .bool relationship.isAsync), ("is_embedded", .bool relationship.isEmbedded),
    ("is_polymorphic", .bool relationship.isPolymorphic), ("kind", .string relationship.kind.name),
    ("name", .string relationship.name), ("remote_name", Json.ofString? relationship.remoteName),
    ("target", .string relationship.target)]

/-- The document of the properties of a relationship. -/
def RelationshipFlags.toJson (flags : RelationshipFlags) : Json :=
  .object [("is_async", .bool flags.isAsync), ("is_embedded", .bool flags.isEmbedded),
    ("is_polymorphic", .bool flags.isPolymorphic), ("kind", .string flags.kind.name)]

mutual

/-- The document of a projected field. -/
def ProjectedField.toJson : ProjectedField → Json
  | ⟨name, kind, caption, fields⟩ =>
    .object [("attributes", .array (ProjectedField.fieldsToJson fields)),
      ("caption", .string caption), ("kind", .string kind.projectionName), ("name", .string name)]
termination_by structural field => field

/-- The documents of projected fields. -/
def ProjectedField.fieldsToJson : List ProjectedField → List Json
  | [] => []
  | field :: fields => field.toJson :: ProjectedField.fieldsToJson fields
termination_by structural fields => fields

end

/-- The document of a projection. -/
def Projection.toJson (projection : Projection) : Json :=
  .object [("attributes", .array (ProjectedField.fieldsToJson projection.fields)),
    ("name", .string projection.name)]

/-- The document of a model. -/
def Model.toJson (model : Model) : Json :=
  .object [("attributes", .array (model.attributes.map Attribute.toJson)),
    ("key_type", Json.ofString? (model.keyType.map KeyType.name)),
    ("name", .string model.name), ("parent", Json.ofString? model.parent),
    ("primary_key_name", Json.ofString? model.keyName),
    ("projections", .array (model.projections.map Projection.toJson)),
    ("relationships", .array (model.relationships.map Relationship.toJson)),
    ("remote_name", Json.ofString? model.remoteName),
    ("type_name", Json.ofString? model.typeName)]

/-- Read the type of an attribute. -/
def AttributeType.ofDocument (document : Document) : Except String AttributeType := do
  let (name, rest) ← document.toTaggedFields "type" names
  if name = "enum" then
    let get ← rest.fields ["type_name"]
    return enumeration (← get.required "type_name" Document.toText)
  else
    rest.expectNoFields
    match byName.lookup name with
    | some type => return type
    | none => throw ("unknown type " ++ name)

/-- The attribute type of a document. -/
def AttributeType.ofJson (document : Json) : Except String AttributeType :=
  ofDocument (.ofJson document)

/-- A text that may be null. -/
def readOptionalText (document : Document) : Except String (Option String) :=
  document.toOption Document.toText

/-- The type of an attribute stands among the members that are no fields of the attribute
itself. -/
def Attribute.readType (manner : Manner) (members : List (String × Json)) :
    Except String AttributeType := do
  let others := members.filter fun member => member.1 ≠ "name" && member.1 ≠ "remote_name"
  let rest : Document := ⟨.object others, manner⟩
  if rest.hasValue then AttributeType.ofDocument rest.aside else throw "a part without a value"

/-- Read an attribute; its members are always named. -/
def Attribute.ofDocument (document : Document) : Except String Attribute :=
  match document.content with
  | .object members => do
    let get ← document.fields ["name", "remote_name"]
    return { name := ← get.required "name" Document.toText
             type := ← Attribute.readType document.manner members
             remoteName := ← get.withDefault "remote_name" readOptionalText none }
  | _ => .error "expected an attribute"

/-- Read a relationship. -/
def Relationship.ofDocument (document : Document) : Except String Relationship := do
  let get ← document.fields ["name", "kind", "target", "is_async", "is_polymorphic",
    "is_embedded", "remote_name"]
  return { name := ← get.required "name" Document.toText
           kind := ← get.required "kind" (Document.toChoice FieldKind.byName)
           target := ← get.required "target" Document.toText
           isAsync := ← get.withDefault "is_async" Document.toBool false
           isPolymorphic := ← get.withDefault "is_polymorphic" Document.toBool false
           isEmbedded := ← get.withDefault "is_embedded" Document.toBool false
           remoteName := ← get.withDefault "remote_name" readOptionalText none }

/-- The relationship of a document. -/
def Relationship.ofJson (document : Json) : Except String Relationship :=
  ofDocument (.ofJson document)

/-- Read a projected field nested at most so deep. -/
def ProjectedField.ofDocumentWithin : Nat → Document → Except String ProjectedField
  | 0, _ => .error "nested too deep"
  | fuel + 1, document => do
    let get ← document.fields ["name", "kind", "caption", "attributes"]
    let readFields := Document.toList (ofDocumentWithin fuel)
    return { name := ← get.required "name" Document.toText
             kind := ← get.required "kind" (Document.toChoice FieldKind.byProjectionName)
             caption := ← get.withDefault "caption" Document.toText ""
             fields := ← get.withDefault "attributes" readFields [] }
termination_by structural fuel => fuel

/-- Read a projection. -/
def Projection.ofDocument (document : Document) : Except String Projection := do
  let get ← document.fields ["name", "attributes"]
  let readField := ProjectedField.ofDocumentWithin (document.content.depth + 1)
  return { name := ← get.required "name" Document.toText
           fields := ← get.withDefault "attributes" (Document.toList readField) [] }

/-- Read a model. -/
def Model.ofDocument (document : Document) : Except String Model := do
  let get ← document.fields ["name", "primary_key_name", "key_type", "type_name",
    "remote_name", "parent", "attributes", "relationships", "projections"]
  let readKeyType := Document.toOption (Document.toChoice KeyType.byName)
  let list {α : Type} (name : String) (read : Document → Except String α) :=
    get.withDefault name (Document.toList read) []
  return { name := ← get.required "name" Document.toText
           keyName := ← get.withDefault "primary_key_name" readOptionalText none
           keyType := ← get.withDefault "key_type" readKeyType none
           typeName := ← get.withDefault "type_name" readOptionalText none
           remoteName := ← get.withDefault "remote_name" readOptionalText none
           parent := ← get.withDefault "parent" readOptionalText none
           attributes := ← list "attributes" Attribute.ofDocument
           relationships := ← list "relationships" Relationship.ofDocument
           projections := ← list "projections" Projection.ofDocument }

/-- Read a schema. -/
def Schema.ofDocument (document : Document) : Except String Schema := do
  let get ← document.fields ["models"]
  return Schema.ofModels (← get.withDefault "models" (Document.toList Model.ofDocument) [])

/-- Read a schema from a JSON text. -/
def Schema.ofJsonText (text : String) : Except Fault Schema :=
  (do ofDocument (.ofJson (← Json.outline text)) : Except String Schema).mapError .configuration

/-- Read a schema from a TOML text. -/
def Schema.ofTomlText (text : String) : Except Fault Schema :=
  (Toml.parse text >>= ofDocument).mapError .configuration

end EntityQuery
