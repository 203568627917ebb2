import EntityQuery.Entries
import EntityQuery.Value.Basic

/-!
# Schemas

A schema describes entity types by models. A model declares scalar attributes,
relationships to one or many records of another type, named projections, and the key
of its records; what it does not declare it inherits from its base model.
-/

namespace EntityQuery

/-- The type of the identity of a record. -/
inductive KeyType where
  /-- A globally unique identifier. -/
  | guid
  /-- A text. -/
  | string
  /-- A number. -/
  | number
  deriving Repr, DecidableEq

/-- The declared type of a scalar attribute. -/
inductive AttributeType where
  /-- A text. -/
  | string
  /-- A number. -/
  | number
  /-- A number with fixed places. -/
  | decimal
  /-- True or false. -/
  | boolean
  /-- A moment. -/
  | date
  /-- A globally unique identifier. -/
  | guid
  /-- One of the values of a named enumeration. -/
  | enumeration (typeName : String)
  deriving Repr, DecidableEq

/-- What a field leads to. -/
inductive FieldKind where
  /-- A scalar. -/
  | scalar
  /-- One related record. -/
  | belongsTo
  /-- A collection of related records. -/
  | hasMany
  deriving Repr, DecidableEq

/-- A declared scalar attribute. -/
structure Attribute where
  /-- The name of the field. -/
  name : String
  /-- The type of its values. -/
  type : AttributeType
  /-- Its name in remote requests, if it differs from the usual one. -/
  remoteName : Option String := none
  deriving Repr, DecidableEq

/-- A declared relationship. -/
structure Relationship where
  /-- The name of the field. -/
  name : String
  /-- One related record or many. -/
  kind : FieldKind
  /-- The type of the related records. -/
  target : String
  /-- Related records are loaded on demand. -/
  isAsync : Bool := false
  /-- The related record may be of a derived type. -/
  isPolymorphic : Bool := false
  /-- Related records travel with their owner. -/
  isEmbedded : Bool := false
  /-- Its name in remote requests, if it differs from the usual one. -/
  remoteName : Option String := none
  deriving Repr, DecidableEq

/-- The properties of a relationship that a select tree keeps. -/
structure RelationshipFlags where
  /-- One related record or many. -/
  kind : FieldKind
  /-- Related records are loaded on demand. -/
  isAsync : Bool
  /-- The related record may be of a derived type. -/
  isPolymorphic : Bool
  /-- Related records travel with their owner. -/
  isEmbedded : Bool
  deriving Repr, DecidableEq

/-- The properties of a relationship. -/
def Relationship.flags (relationship : Relationship) : RelationshipFlags :=
  { kind := relationship.kind, isAsync := relationship.isAsync,
    isPolymorphic := relationship.isPolymorphic, isEmbedded := relationship.isEmbedded }

/-- A field of a projection; relationships carry the fields of the related type. -/
structure ProjectedField where
  /-- The name of the field. -/
  name : String
  /-- What the field leads to. -/
  kind : FieldKind
  /-- The heading under which it is shown. -/
  caption : String := ""
  /-- The fields of the related type. -/
  fields : List ProjectedField := []
  deriving Repr

/-- A named choice of fields. -/
structure Projection where
  /-- The name of the projection. -/
  name : String
  /-- Its fields in order. -/
  fields : List ProjectedField := []
  deriving Repr

/-- The field of a projection with a given name. -/
def Projection.field? (projection : Projection) (name : String) : Option ProjectedField :=
  projection.fields.find? fun field => field.name == name

/-- An entity type. -/
structure Model where
  /-- The name of the type. -/
  name : String
  /-- The name of the key in remote requests. -/
  keyName : Option String := none
  /-- The type of the key. -/
  keyType : Option KeyType := none
  /-- The name of the type in type assertions. -/
  typeName : Option String := none
  /-- The name of the collection in remote requests. -/
  remoteName : Option String := none
  /-- The base model. -/
  parent : Option String := none
  /-- The scalar attributes in order. -/
  attributes : List Attribute := []
  /-- The relationships in order. -/
  relationships : List Relationship := []
  /-- The named projections. -/
  projections : List Projection := []
  deriving Repr

/-- A field as an entity type sees it. -/
inductive Field where
  /-- The identity of the records of a type: its remote name and its type. -/
  | key (entity remoteName : String) (type : KeyType)
  /-- A scalar attribute and the model that declares it. -/
  | scalar (owner : String) (declaration : Attribute)
  /-- A relationship and the model that declares it. -/
  | related (owner : String) (declaration : Relationship)
  deriving Repr, DecidableEq

namespace Field

/-- The name of a field. -/
def name : Field → String
  | key .. => identityField
  | scalar _ declaration => declaration.name
  | related _ declaration => declaration.name

/-- The model that a field belongs to. -/
def owner : Field → String
  | key entity _ _ => entity
  | scalar owner _ => owner
  | related owner _ => owner

/-- What a field leads to. -/
def kind : Field → FieldKind
  | key .. | scalar .. => .scalar
  | related _ declaration => declaration.kind

/-- The declared type of a scalar attribute. -/
def attributeType? : Field → Option AttributeType
  | scalar _ declaration => some declaration.type
  | _ => none

/-- The type of the related records. -/
def target? : Field → Option String
  | related _ declaration => some declaration.target
  | _ => none

/-- The type of the related records, empty if there are none. -/
def target (field : Field) : String := field.target?.getD ""

/-- The type of a key. -/
def keyType? : Field → Option KeyType
  | key _ _ type => some type
  | _ => none

/-- The declared name in remote requests. -/
def remoteName? : Field → Option String
  | key _ remoteName _ => some remoteName
  | scalar _ declaration => declaration.remoteName
  | related _ declaration => declaration.remoteName

/-- The properties of a relationship. -/
def flags? : Field → Option RelationshipFlags
  | related _ declaration => some declaration.flags
  | _ => none

/-- The identity of a record. -/
def isKey : Field → Bool
  | key .. => true
  | _ => false

/-- An attribute with the values of an enumeration. -/
def isEnumeration (field : Field) : Bool :=
  match field.attributeType? with
  | some (.enumeration _) => true
  | _ => false

/-- A field that leads to other records. -/
def isRelationship (field : Field) : Bool := field.kind != .scalar

end Field

/-- The models by name. -/
structure Schema where
  /-- The models. -/
  models : Entries Model
  deriving Repr

/-- The schema of a list of models; of several models with one name the last counts. -/
def Schema.ofModels (models : List Model) : Schema :=
  ⟨Entries.ofList (models.map fun model => (model.name, model))⟩

/-- The names of the models in ascending order. -/
def Schema.names (schema : Schema) : List String := schema.models.map Prod.fst

end EntityQuery
