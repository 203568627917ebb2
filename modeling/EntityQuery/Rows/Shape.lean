import EntityQuery.Entries
import EntityQuery.SelectTree
import EntityQuery.Value.Basic

/-!
# Shaping records

Shaping keeps the fields that a select tree wants and shapes related records in turn.
A relationship to one record of a changing type keeps the name of that type, which is
stored beside it.
-/

namespace EntityQuery.Rows

/-- The field that holds the type of a related record. -/
def discriminatorField (relationship : String) : String := "_" ++ relationship ++ "_type"

/-- The relationship leads to one record of a changing type. -/
def hasDiscriminator (flags : Option RelationshipFlags) : Bool :=
  match flags with
  | some flags => flags.isPolymorphic && flags.kind == .belongsTo
  | none => false

/-- Change a nested record, or the records in a list. -/
def mapRecords (change : Record → Record) : Value → Value
  | .record fields => .record (change fields)
  | .list items => .list (items.map fun
      | .record fields => .record (change fields)
      | item => item)
  | value => value

/-- Copy a field from one record to another, if it is there. -/
def copyField (source : Record) (out : Record) (name : String) : Record :=
  match source.get? name with
  | some value => out.insert name value
  | none => out

mutual

/-- The fields of a record that a tree wants. -/
def shape : SelectTree → Record → Record
  | ⟨_, _, select, expand, _⟩, record =>
    let plain := select.filter fun name => !Entries.contains expand name
    shapeRelated expand record (plain.foldl (copyField record) [])
termination_by structural tree => tree

/-- Add the related records that the children of a tree want. -/
def shapeRelated : List (String × SelectTree) → Record → Record → Record
  | [], _, out => out
  | (name, child) :: rest, record, out =>
    match record.get? name with
    | none => shapeRelated rest record out
    | some value =>
      let out := out.insert name (mapRecords (shape child) value)
      let out :=
        if hasDiscriminator child.relationship then
          copyField record out (discriminatorField name)
        else out
      shapeRelated rest record out
termination_by structural children => children

end

end EntityQuery.Rows
