import EntityQuery.Entries
import EntityQuery.Schema.Document

/-!
# Select trees

A select tree says which fields of a type are wanted and which related records are
wanted with them, level by level. Every node selects the identity first, every field
once, and a relationship that is expanded is also selected.
-/

namespace EntityQuery

/-- The wanted fields of a type. -/
structure SelectTree where
  /-- The type of the records. -/
  entityType : String
  /-- The name of their key in remote requests. -/
  keyName : String
  /-- The wanted fields in order. -/
  select : List String
  /-- The trees of the related records, by relationship. -/
  expand : List (String × SelectTree)
  /-- The relationship that leads here; none at the root. -/
  relationship : Option RelationshipFlags
  deriving Repr

namespace SelectTree

/-- A tree that wants nothing but the identity. -/
def root (entityType keyName : String) (relationship : Option RelationshipFlags := none) :
    SelectTree :=
  { entityType, keyName, select := [identityField], expand := [], relationship }

/-- Add names to a list, each at the end and only once. -/
def addName (names : List String) (name : String) : List String :=
  if names.contains name then names else names ++ [name]

/-- Want a field. -/
def addSelect (tree : SelectTree) (name : String) : SelectTree :=
  { tree with select := addName tree.select name }

/-- Want the related records of a field and change their tree. A missing tree is made
anew; the field itself is wanted too. -/
def expandWith {ε : Type} (tree : SelectTree) (name : String) (fresh : SelectTree)
    (change : SelectTree → Except ε SelectTree) : Except ε SelectTree := do
  let child ← change ((Entries.get? tree.expand name).getD fresh)
  return { tree.addSelect name with expand := Entries.insert tree.expand name child }

/-- A path is reached: its last segment is selected where the segments before lead. -/
def covers : SelectTree → List String → Bool
  | _, [] => true
  | tree, [last] => tree.select.contains last
  | tree, segment :: rest =>
    match Entries.get? tree.expand segment with
    | some child => child.covers rest
    | none => false

/-- Nothing but the identity is wanted. -/
def isTrivial (tree : SelectTree) : Bool :=
  tree.expand.isEmpty && tree.select.all (· == identityField)

mutual

/-- The union of two trees; names of the first come first. -/
def merged : SelectTree → SelectTree → SelectTree
  | ⟨entityType, keyName, select, expand, relationship⟩, other =>
    { entityType, keyName, relationship
      select := other.select.foldl addName select
      expand := Entries.ofList
        (mergedChildren expand other.expand ++
          other.expand.filter fun child => !Entries.contains expand child.1) }
termination_by structural tree => tree

/-- The children of the first tree, each united with the child of that name, if any. -/
def mergedChildren : List (String × SelectTree) → List (String × SelectTree) →
    List (String × SelectTree)
  | [], _ => []
  | (name, child) :: rest, others =>
    match Entries.get? others name with
    | some other => (name, child.merged other) :: mergedChildren rest others
    | none => (name, child) :: mergedChildren rest others
termination_by structural children => children

end

mutual

/-- The document of a tree. -/
def toJson : SelectTree → Json
  | ⟨entityType, keyName, select, expand, relationship⟩ =>
    .object [("entity_type", .string entityType), ("expand", .object (childrenToJson expand)),
      ("primary_key_name", .string keyName),
      ("relationship", (relationship.map RelationshipFlags.toJson).getD .null),
      ("select", Json.ofStrings select)]
termination_by structural tree => tree

/-- The documents of the children of a tree. -/
def childrenToJson : List (String × SelectTree) → List (String × Json)
  | [] => []
  | (name, child) :: rest => (name, child.toJson) :: childrenToJson rest
termination_by structural children => children

end

end SelectTree

end EntityQuery
