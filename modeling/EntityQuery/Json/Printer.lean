import EntityQuery.Json.Basic
import EntityQuery.Decimal.Format

/-!
# Writing JSON

Documents are written either without any blanks, or one item a line with two blanks
for every level. Texts are escaped only where the format demands it: quotation
marks, backslashes and control characters.
-/

namespace EntityQuery.Json

/-- A hexadecimal digit in small letters. -/
def smallHexDigit (n : Nat) : Char :=
  if n < 10 then Char.ofNat (48 + n) else Char.ofNat (87 + n)

/-- One character of a text as it is written. -/
def escapeChar (c : Char) : List Char :=
  if c = '"' then ['\\', '"']
  else if c = '\\' then ['\\', '\\']
  else if c = '\n' then ['\\', 'n']
  else if c = '\r' then ['\\', 'r']
  else if c = '\t' then ['\\', 't']
  else if c.toNat = 8 then ['\\', 'b']
  else if c.toNat = 12 then ['\\', 'f']
  else if c.toNat < 32 then
    ['\\', 'u', '0', '0', smallHexDigit (c.toNat / 16), smallHexDigit (c.toNat % 16)]
  else [c]

/-- A text between quotation marks. -/
def stringText (text : String) : String :=
  "\"" ++ String.ofList (text.toList.flatMap escapeChar) ++ "\""

/-- Anything but an array or an object. -/
def scalarText : Json → String
  | .null => "null"
  | .bool true => "true"
  | .bool false => "false"
  | .int n => toString n
  | .float x => Decimal.FloatFormat.document.text x
  | .string text => stringText text
  | .array _ => "[]"
  | .object _ => "\x7b\x7d"

mutual

/-- A document without blanks. -/
def compact : Json → String
  | .array items => "[" ++ String.intercalate "," (compactItems items) ++ "]"
  | .object members => "\x7b" ++ String.intercalate "," (compactMembers members) ++ "\x7d"
  | document => document.scalarText
termination_by structural document => document

/-- The items of an array without blanks. -/
def compactItems : List Json → List String
  | [] => []
  | item :: items => item.compact :: compactItems items
termination_by structural items => items

/-- The members of an object without blanks. -/
def compactMembers : List (String × Json) → List String
  | [] => []
  | (name, member) :: members =>
    (stringText name ++ ":" ++ member.compact) :: compactMembers members
termination_by structural members => members

end

/-- A new line with two blanks for every level. -/
def newLine (level : Nat) : String :=
  "\n" ++ String.ofList (List.replicate (2 * level) ' ')

mutual

/-- A document with one item a line, starting at some level. -/
def pretty (level : Nat) : Json → String
  | .array [] => "[]"
  | .array (item :: items) =>
    "[" ++ newLine (level + 1) ++
      String.intercalate ("," ++ newLine (level + 1))
        (item.pretty (level + 1) :: prettyItems (level + 1) items) ++
      newLine level ++ "]"
  | .object [] => "\x7b\x7d"
  | .object ((name, member) :: members) =>
    "\x7b" ++ newLine (level + 1) ++
      String.intercalate ("," ++ newLine (level + 1))
        ((stringText name ++ ": " ++ member.pretty (level + 1)) ::
          prettyMembers (level + 1) members) ++
      newLine level ++ "\x7d"
  | document => document.scalarText
termination_by structural document => document

/-- The items of an array at some level. -/
def prettyItems (level : Nat) : List Json → List String
  | [] => []
  | item :: items => item.pretty level :: prettyItems level items
termination_by structural items => items

/-- The members of an object at some level. -/
def prettyMembers (level : Nat) : List (String × Json) → List String
  | [] => []
  | (name, member) :: members =>
    (stringText name ++ ": " ++ member.pretty level) :: prettyMembers level members
termination_by structural members => members

end

end EntityQuery.Json
