import EntityQuery.Document.Fields

/-!
# Choices in documents

A choice among several forms is written in one of three ways. Forms without content
are written as their names. Otherwise a tag names the form, and either its content
stands beside the tag under a name of its own, or its fields stand beside the tag.
An array begins with the tag.
-/

namespace EntityQuery.Document

/-- The name of a form without content: a text, or an object whose only member has that
name. -/
def toName (document : Document) : Except String String :=
  match document.content with
  | .string name => .ok name
  | .object [(name, content)] =>
    if document.manner.allowsUnderName content then .ok name else .error "unexpected content"
  | _ => .error "expected a name"

/-- One of several named values. -/
def toChoice {α : Type} (choices : List (String × α)) (document : Document) :
    Except String α := do
  let name ← document.toName
  match choices.lookup name with
  | some value => return value
  | none => throw ("unknown name " ++ name)

/-- The name of a form, which may be given by the position among all forms if the
document allows that. -/
def toFormName (forms : List String) (document : Document) : Except String String :=
  match document.content with
  | .string name => .ok name
  | .int n =>
    match document.manner.allowsPositions && 0 ≤ n, forms[n.toNat]? with
    | true, some name => .ok name
    | _, _ => .error "expected a name"
  | _ => .error "expected a name"

/-- A content that stands before its tag has to be set aside. -/
def precedes (content tag : String) (members : List (String × Json)) : Bool :=
  (members.find? fun member => member.1 == tag || member.1 == content).any (·.1 == content)

/-- The form that a tag names and the content beside the tag, if there is one. -/
def toTagged (tag content : String) (forms : List String) (document : Document) :
    Except String (String × Option Document) :=
  match document.content with
  | .object members => do
    let get ← document.fields [tag, content]
    let name ← get.required tag toName
    if precedes content tag members then return (name, (get.find? content).map aside)
    else return (name, get.find? content)
  | .array [first, second] => do
    let name ← toFormName forms ⟨first, document.manner⟩
    return (name, some ⟨second, document.manner⟩)
  | _ => .error "expected a tag and a content"

/-- The content of a form that has one. -/
def expectContent : Option Document → Except String Document
  | some document => .ok document
  | none => .error "missing content"

/-- A form without content allows null in its place. -/
def expectNoContent : Option Document → Except String Unit
  | none => .ok ()
  | some document =>
    match document.content with
    | .null => .ok ()
    | _ => .error "unexpected content"

/-- The form that a tag names and the document of its fields, which stand beside the tag
and are set aside. -/
def toTaggedFields (tag : String) (forms : List String) (document : Document) :
    Except String (String × Document) :=
  match document.content with
  | .object _ => do
    let get ← document.fields [tag]
    return (← get.required tag (toFormName forms), document.aside)
  | .array (first :: rest) => do
    let name ← toFormName forms ⟨first, document.manner⟩
    return (name, ⟨.array rest, document.manner.aside⟩)
  | _ => .error "expected a tag"

/-- A form without fields passes over named fields and refuses listed ones. -/
def expectNoFields (document : Document) : Except String Unit := do
  let _ ← document.fields []

end EntityQuery.Document
