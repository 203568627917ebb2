import EntityQuery.Document.Forms
import EntityQuery.Value.Json

/-!
# Values as tagged documents

A tagged document names the kind of every value, so it keeps what a plain document
loses: instants stay instants, and whole numbers stay apart from doubles. An instant
without a written form has no tagged document.
-/

namespace EntityQuery.Value

/-- A tag with its content. -/
def tagged (tag : String) (content : Json) : Json :=
  .object [("t", .string tag), ("v", content)]

mutual

/-- The tagged document of a value, if it has one. -/
def toTagged? : Value → Option Json
  | null => some (.object [("t", .string "Null")])
  | bool b => some (tagged "Bool" (.bool b))
  | int n => some (tagged "Int" (.int n.toInt))
  | float x => some (tagged "Float" (if Decimal.isFiniteFloat x then .float x else .null))
  | string text => some (tagged "String" (.string text))
  | instant t => t.rfc3339?.map fun text => tagged "DateTime" (.string text)
  | list items => (itemsToTagged? items).map fun items => tagged "List" (.array items)
  | record fields => (fieldsToTagged? fields).map fun fields => tagged "Object" (.object fields)
termination_by structural value => value

/-- The tagged documents of a list of values. -/
def itemsToTagged? : List Value → Option (List Json)
  | [] => some []
  | item :: items => do return (← item.toTagged?) :: (← itemsToTagged? items)
termination_by structural items => items

/-- The tagged documents of the fields of a record. -/
def fieldsToTagged? : List (String × Value) → Option (List (String × Json))
  | [] => some []
  | (name, value) :: fields => do return (name, ← value.toTagged?) :: (← fieldsToTagged? fields)
termination_by structural fields => fields

end

/-- The kinds of values in order. -/
def tags : List String :=
  ["Null", "Bool", "Int", "Float", "String", "DateTime", "List", "Object"]

/-- A whole number of 64 bits with sign. -/
def readInt (document : Document) : Except String Value :=
  match document.content with
  | .int n =>
    if Json.fitsInt64 n then .ok (int (Int64.ofInt n)) else .error "number out of range"
  | _ => .error "expected a whole number"

/-- An instant in its written form. -/
def readInstant (document : Document) : Except String Value := do
  match Instant.ofRfc3339? (← document.toText) with
  | some t => return instant t
  | none => throw "expected an instant"

/-- Read a tagged document nested at most so deep. -/
def ofTaggedWithin : Nat → Document → Except String Value
  | 0, _ => .error "nested too deep"
  | fuel + 1, document => do
    let (tag, content) ← document.toTagged "t" "v" tags
    if tag = "Null" then
      Document.expectNoContent content
      return null
    else if tag = "Bool" then return bool (← (← Document.expectContent content).toBool)
    else if tag = "Int" then readInt (← Document.expectContent content)
    else if tag = "Float" then return float (← (← Document.expectContent content).toFloat)
    else if tag = "String" then return string (← (← Document.expectContent content).toText)
    else if tag = "DateTime" then readInstant (← Document.expectContent content)
    else if tag = "List" then
      return list (← (← Document.expectContent content).toList (ofTaggedWithin fuel))
    else if tag = "Object" then
      return record (← (← Document.expectContent content).toEntries (ofTaggedWithin fuel))
    else throw ("unknown kind " ++ tag)
termination_by structural fuel => fuel

/-- Read a tagged document. -/
def ofTaggedDocument (document : Document) : Except String Value :=
  ofTaggedWithin (document.content.depth + 1) document

/-- The value of a tagged document. -/
def ofTagged (document : Json) : Except String Value :=
  ofTaggedDocument (.ofJson document)

end EntityQuery.Value
