import EntityQuery.Json.Basic

/-!
# Documents to be read

The same structures are read from JSON and from TOML, and some parts of a JSON document
are set aside before it is known what they have to be. How a document came to be read
decides which unusual spellings it may use; everything else is the same for all. This
module reads texts, numbers, lists and maps.
-/

namespace EntityQuery

/-- How a document came to be read. -/
inductive Manner where
  /-- From JSON, in place. -/
  | inPlace
  /-- From JSON, after it had been set aside. -/
  | setAside
  /-- From TOML. -/
  | toml
  deriving Repr, DecidableEq

/-- A document that is set aside: TOML documents stay what they are. -/
def Manner.aside : Manner → Manner
  | toml => toml
  | _ => setAside

/-- What may stand under the name of a form without content, when the name is written as
the only member of an object. -/
def Manner.allowsUnderName : Manner → Json → Bool
  | toml, .object [] | toml, .array [] => true
  | setAside, .object [] => true
  | inPlace, .null | setAside, .null => true
  | _, _ => false

/-- A form may be given by its position among all forms. -/
def Manner.allowsPositions (manner : Manner) : Bool := manner == setAside

/-- A list of fields may go on after the last field. -/
def Manner.allowsSurplus (manner : Manner) : Bool := manner == toml

/-- A document to be read. -/
structure Document where
  /-- What it holds. -/
  content : Json
  /-- How it came to be read. -/
  manner : Manner

namespace Document

/-- A JSON document that is read in place. -/
def ofJson (content : Json) : Document := ⟨content, .inPlace⟩

/-- The document after it has been set aside. -/
def aside (document : Document) : Document := { document with manner := document.manner.aside }

/-- The document can be set aside. Every part of a TOML document has a value. -/
def hasValue (document : Document) : Bool :=
  document.manner == .toml || document.content.hasValue

/-- A text. -/
def toText (document : Document) : Except String String :=
  match document.content with
  | .string text => .ok text
  | _ => .error "expected a text"

/-- True or false. -/
def toBool (document : Document) : Except String Bool :=
  match document.content with
  | .bool b => .ok b
  | _ => .error "expected true or false"

/-- A whole number of 64 bits without sign. -/
def toNat (document : Document) : Except String Nat :=
  match document.content with
  | .int n => if 0 ≤ n ∧ n < 18446744073709551616 then .ok n.toNat else .error "number out of range"
  | _ => .error "expected a whole number"

/-- A number; whole numbers are rounded to the nearest double. -/
def toFloat (document : Document) : Except String Float :=
  match document.content with
  | .int n => .ok (Float.ofInt n)
  | .float x => .ok x
  | _ => .error "expected a number"

/-- The items of an array. -/
def toItems (document : Document) : Except String (List Document) :=
  match document.content with
  | .array items => .ok (items.map fun item => ⟨item, document.manner⟩)
  | _ => .error "expected an array"

/-- The items of an array, each read the same way. -/
def toList {α : Type} (read : Document → Except String α) (document : Document) :
    Except String (List α) := do
  (← document.toItems).mapM read

/-- The contents of an object as a map; of several members with one name the last counts. -/
def toEntries {α : Type} (read : Document → Except String α) (document : Document) :
    Except String (Entries α) :=
  match document.content with
  | .object members => do
    let contents ← members.mapM fun (name, member) =>
      return (name, ← read ⟨member, document.manner⟩)
    return Entries.ofList contents
  | _ => .error "expected an object"

/-- Null, or something. -/
def toOption {α : Type} (read : Document → Except String α) (document : Document) :
    Except String (Option α) :=
  match document.content with
  | .null => .ok none
  | _ => (read document).map some

end Document

end EntityQuery
