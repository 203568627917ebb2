import EntityQuery.Value.Basic

/-!
# Reading records along paths

A path goes through nested records. Where it ends at a nested record, it reads the
identity of that record, so a relationship to one record stands for its key.
-/

namespace EntityQuery

/-- What reading ends with: the identity of a nested record, any other value as it is. -/
def Value.endpoint : Value → Value
  | .record fields => (Entries.get? fields identityField).getD .null
  | value => value

/-- Read a record along a path. What is missing reads as null. -/
def Record.read (record : Record) : List String → Value
  | [] => .null
  | [name] =>
    match record.get? name with
    | some value => value.endpoint
    | none => .null
  | name :: rest =>
    match record.get? name with
    | some (.record nested) => Record.read nested rest
    | _ => .null

end EntityQuery
