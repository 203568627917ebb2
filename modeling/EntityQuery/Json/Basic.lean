import EntityQuery.Entries

/-!
# JSON documents

A document keeps whole numbers apart from floating-point numbers, and the members
of an object in the order in which they were written. The canonical form of a
document has the members of every object in ascending order of their names, each
name once. A part of a text that is well formed but has no value is marked by a number
that no text spells.
-/

namespace EntityQuery

/-- A JSON document. -/
inductive Json where
  /-- The null document. -/
  | null
  /-- True or false. -/
  | bool (b : Bool)
  /-- A number without point and exponent. -/
  | int (n : Int)
  /-- A number with point or exponent. -/
  | float (x : Float)
  /-- A text. -/
  | string (text : String)
  /-- A sequence of documents. -/
  | array (items : List Json)
  /-- Named documents. -/
  | object (members : List (String × Json))
  deriving Inhabited

namespace Json

mutual

/-- The canonical form of a document; of several members with one name the last counts. -/
def canonical : Json → Json
  | .array items => .array (canonicalItems items)
  | .object members => .object (Entries.ofList (canonicalMembers members))
  | document => document
termination_by structural document => document

/-- The canonical forms of the items of an array. -/
def canonicalItems : List Json → List Json
  | [] => []
  | item :: items => item.canonical :: canonicalItems items
termination_by structural items => items

/-- The canonical forms of the members of an object, in the order written. -/
def canonicalMembers : List (String × Json) → List (String × Json)
  | [] => []
  | (name, member) :: members => (name, member.canonical) :: canonicalMembers members
termination_by structural members => members

end

mutual

/-- How deep arrays and objects nest in a document. -/
def depth : Json → Nat
  | .array items => depthItems items + 1
  | .object members => depthMembers members + 1
  | _ => 0
termination_by structural document => document

/-- The greatest depth of the items. -/
def depthItems : List Json → Nat
  | [] => 0
  | item :: items => max item.depth (depthItems items)
termination_by structural items => items

/-- The greatest depth of the members. -/
def depthMembers : List (String × Json) → Nat
  | [] => 0
  | (_, member) :: members => max member.depth (depthMembers members)
termination_by structural members => members

end

/-- Stands for a part of a text that is well formed but has no value. No text spells it
as a number. -/
def valueless : Json := .float (0.0 / 0.0)

mutual

/-- No part of a document lacks a value. -/
def hasValue : Json → Bool
  | .float x => !x.isNaN
  | .array items => itemsHaveValue items
  | .object members => membersHaveValue members
  | _ => true
termination_by structural document => document

/-- No part of the items lacks a value. -/
def itemsHaveValue : List Json → Bool
  | [] => true
  | item :: items => item.hasValue && itemsHaveValue items
termination_by structural items => items

/-- No part of the members lacks a value. -/
def membersHaveValue : List (String × Json) → Bool
  | [] => true
  | (_, member) :: members => member.hasValue && membersHaveValue members
termination_by structural members => members

end

/-- A whole number fits 64 bits with sign. -/
def fitsInt64 (n : Int) : Bool := -9223372036854775808 ≤ n && n ≤ 9223372036854775807

/-- The member of an object under a name. -/
def member? : Json → String → Option Json
  | .object members, name => Entries.get? members name
  | _, _ => none

/-- A text, or null. -/
def ofString? : Option String → Json
  | some text => .string text
  | none => .null

/-- A natural number, or null. -/
def ofNat? : Option Nat → Json
  | some n => .int n
  | none => .null

/-- Texts as an array. -/
def ofStrings (texts : List String) : Json :=
  .array (texts.map .string)

end Json

end EntityQuery
