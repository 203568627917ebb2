import EntityQuery.Document.Basic

/-!
# Structures in documents

A structure is written as an object with one member a field. It is also read from an
array that lists the fields in order; only fields with a default may then be left out
at the end. Members that no field asks for are passed over, and a field given twice is
refused.
-/

namespace EntityQuery.Document

/-- The fields of a structure. -/
structure Fields where
  /-- The document of a field. -/
  find? : String → Option Document
  /-- The fields were listed in order instead of being named. -/
  listed : Bool

/-- A name that occurs more than once. -/
def occursTwice (members : List (String × Json)) (name : String) : Bool :=
  1 < members.countP fun member => member.1 == name

/-- The fields of a structure, given their names in order. -/
def fields (names : List String) (document : Document) : Except String Fields :=
  let part (content : Json) : Document := ⟨content, document.manner⟩
  match document.content with
  | .object members =>
    match names.find? (occursTwice members) with
    | some name => .error ("duplicate field " ++ name)
    | none => .ok ⟨fun name => (Entries.get? members name).map part, false⟩
  | .array items =>
    if !document.manner.allowsSurplus && names.length < items.length then .error "too many fields"
    else .ok ⟨fun name => ((names.zip items).lookup name).map part, true⟩
  | _ => .error "expected a structure"

/-- The fields of a structure that has no others. -/
def onlyFields (names : List String) (document : Document) : Except String Fields :=
  match document.content with
  | .object members =>
    match members.find? fun member => !names.contains member.1 with
    | some member => .error ("unknown field " ++ member.1)
    | none => document.fields names
  | _ => document.fields names

/-- A field that must be there. -/
def Fields.required {α : Type} (fields : Fields) (name : String)
    (read : Document → Except String α) : Except String α :=
  match fields.find? name with
  | some document => read document
  | none => .error ("missing field " ++ name)

/-- A field that may be null, or absent among named fields. -/
def Fields.optional {α : Type} (fields : Fields) (name : String)
    (read : Document → Except String α) : Except String (Option α) :=
  match fields.find? name with
  | some document => document.toOption read
  | none => if fields.listed then .error ("missing field " ++ name) else .ok none

/-- A field that has a value when it is absent. -/
def Fields.withDefault {α : Type} (fields : Fields) (name : String)
    (read : Document → Except String α) (value : α) : Except String α :=
  match fields.find? name with
  | some document => read document
  | none => .ok value

end EntityQuery.Document
