import EntityQuery.Fault
import EntityQuery.Schema.Basic
import EntityQuery.Text.Blank
import EntityQuery.Text.Pieces

/-!
# Looking names up in a schema

A name is looked up in a model, then in its base model, and so on. The models on this
way form the lineage of a type; it ends at a model without base or at a base that the
schema does not have. What is found before the end does not depend on how the lineage
ends. A path is looked up segment by segment and may only go on after a relationship
to one record.
-/

namespace EntityQuery

/-- The field that a model itself declares under a name, attributes first. -/
def Model.declared? (model : Model) (name : String) : Option Field :=
  match model.attributes.find? fun declaration => declaration.name == name with
  | some declaration => some (.scalar model.name declaration)
  | none =>
    (model.relationships.find? fun declaration => declaration.name == name).map
      fun declaration => .related model.name declaration

/-- The fields that a model itself declares. -/
def Model.declaredFields (model : Model) : List Field :=
  (model.attributes.map Attribute.name ++ model.relationships.map Relationship.name).filterMap
    model.declared?

/-- A type and its bases, and the base at which the lineage breaks off. -/
structure Lineage where
  /-- The models, the most derived first. -/
  models : List Model
  /-- The name that the schema does not have. -/
  missing : Option String
  deriving Repr

namespace Schema

/-- The model of a type. -/
def model (schema : Schema) (type : String) : Except Fault Model :=
  match schema.models.get? type with
  | some model => .ok model
  | none => .error (.unknownModel type)

/-- The lineage of a type, cut off after so many models. -/
def climb (schema : Schema) : Nat → String → Lineage
  | 0, _ => ⟨[], none⟩
  | steps + 1, type =>
    match schema.models.get? type with
    | none => ⟨[], some type⟩
    | some model =>
      match model.parent with
      | none => ⟨[model], none⟩
      | some parent =>
        let base := climb schema steps parent
        ⟨model :: base.models, base.missing⟩

/-- The lineage of a type. No lineage without repetition has more models than the schema. -/
def lineage (schema : Schema) (type : String) : Lineage :=
  schema.climb (schema.models.length + 1) type

end Schema

/-- What a search found, or the fault it ends with when the lineage is exhausted. -/
def Lineage.conclude {α : Type} (lineage : Lineage) (found : Option α)
    (exhausted : Except Fault α) : Except Fault α :=
  match found, lineage.missing with
  | some result, _ => .ok result
  | none, some name => .error (.unknownModel name)
  | none, none => exhausted

namespace Schema

/-- The identity field of a type. The name and the type of the key come from the nearest
models that declare them; without any the key is an identifier named as the field. -/
def key (schema : Schema) (type : String) : Except Fault Field :=
  let lineage := schema.lineage type
  let keyName := lineage.models.findSome? Model.keyName
  let keyType := lineage.models.findSome? Model.keyType
  let declared := do return Field.key type (← keyName) (← keyType)
  lineage.conclude declared
    (.ok (.key type (keyName.getD identityField) (keyType.getD .guid)))

/-- The field of a type under a name. -/
def resolve (schema : Schema) (type name : String) : Except Fault Field :=
  if name = identityField then schema.key type
  else
    let lineage := schema.lineage type
    lineage.conclude (lineage.models.findSome? fun model => model.declared? name)
      (.error (.unknownProperty type name))

/-- Every field of a type but the identity, those of the base models first. -/
def fields (schema : Schema) (type : String) : Except Fault (List Field) :=
  let lineage := schema.lineage type
  match lineage.missing with
  | some name => .error (.unknownModel name)
  | none => .ok (lineage.models.reverse.flatMap Model.declaredFields)

/-- The projection of a type under a name. -/
def projection (schema : Schema) (type name : String) : Except Fault Projection :=
  let lineage := schema.lineage type
  lineage.conclude
    (lineage.models.findSome? fun model =>
      model.projections.find? fun projection => projection.name == name)
    (.error (.projectionNotFound type name))

/-- The segments of a path, blanks around them dropped. None may be empty. -/
def pathSegments (path : String) : Except Fault (List String) :=
  let segments := (Text.pieces '.' path).map Text.trim
  if segments.any String.isEmpty then .error (.emptyPath path) else .ok segments

/-- Look segments up one after the other, each but the last leading to one record. -/
def walk (schema : Schema) : String → List String → Except Fault (List Field)
  | _, [] => .ok []
  | type, [last] => do return [← schema.resolve type last]
  | type, segment :: rest => do
    let field ← schema.resolve type segment
    if field.kind ≠ .belongsTo then throw (.notRelationship type segment)
    return field :: (← walk schema field.target rest)

/-- The fields along a path from a type. -/
def resolvePath (schema : Schema) (type path : String) : Except Fault (List Field) := do
  schema.walk type (← pathSegments path)

/-- The fields along a path, and the field at its end. -/
def resolveEnd (schema : Schema) (type path : String) : Except Fault (List Field × Field) := do
  let chain ← schema.resolvePath type path
  match chain.getLast? with
  | some last => return (chain, last)
  | none => throw (.emptyPath path)

/-- The collection at the end of a path. -/
def resolveCollection (schema : Schema) (type path : String) : Except Fault Field := do
  let (_, last) ← schema.resolveEnd type path
  if last.kind ≠ .hasMany then throw (.notRelationship last.owner last.name)
  return last

end Schema

end EntityQuery
