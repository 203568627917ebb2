import EntityQuery.Json.Number

/-!
# Reading JSON

A text is one document, with blanks allowed around every part, and its texts hold no
raw control characters. Members of an object are kept in the order written, repeated
names included. Three kinds of parts are well formed and yet have no value: numbers
beyond every double, texts with half of a surrogate pair, and what nests deeper than
127. `outline` marks them, so that a reader may still pass over them; `parse` refuses
them.
-/

namespace EntityQuery.Json

/-- How deep arrays and objects may nest. -/
def depthLimit : Nat := 127

/-- Drop the blanks that separate the parts of a document. -/
def skipBlanks (cs : List Char) : List Char :=
  cs.dropWhile fun c => c == ' ' || c == '\n' || c == '\t' || c == '\r'

/-- The value of a hexadecimal digit. -/
def hexValue? (c : Char) : Option Nat :=
  if c.isDigit then some (c.toNat - 48)
  else if 'a' ≤ c ∧ c ≤ 'f' then some (c.toNat - 87)
  else if 'A' ≤ c ∧ c ≤ 'F' then some (c.toNat - 55)
  else none

/-- The number of four hexadecimal digits. -/
def readHex4 : List Char → Except String (Nat × List Char)
  | a :: b :: c :: d :: cs =>
    match hexValue? a, hexValue? b, hexValue? c, hexValue? d with
    | some a, some b, some c, some d => .ok (((a * 16 + b) * 16 + c) * 16 + d, cs)
    | _, _, _, _ => .error "invalid escape"
  | _ => .error "unexpected end of text"

/-- The character of a high half of a surrogate pair and the low half after it. -/
def joinHalves? (high : Nat) : List Char → Option (Char × List Char)
  | '\\' :: 'u' :: cs =>
    match readHex4 cs with
    | .ok (low, cs) =>
      if 0xdc00 ≤ low ∧ low < 0xe000 then
        some (Char.ofNat (0x10000 + (high - 0xd800) * 0x400 + (low - 0xdc00)), cs)
      else none
    | .error _ => none
  | _ => none

/-- The character of an escape that begins with the letter u, and what follows it. Half
of a surrogate pair is no character. -/
def readUnicodeEscape (cs : List Char) : Except String (Option Char × List Char) := do
  let (unit, cs) ← readHex4 cs
  if 0xd800 ≤ unit ∧ unit < 0xdc00 then
    match joinHalves? unit cs with
    | some (c, cs) => return (some c, cs)
    | none => return (none, cs)
  else if 0xdc00 ≤ unit ∧ unit < 0xe000 then return (none, cs)
  else return (some (Char.ofNat unit), cs)

/-- The character of an escape, and what follows it. -/
def readEscape : List Char → Except String (Option Char × List Char)
  | '"' :: cs => .ok (some '"', cs)
  | '\\' :: cs => .ok (some '\\', cs)
  | '/' :: cs => .ok (some '/', cs)
  | 'b' :: cs => .ok (some (Char.ofNat 8), cs)
  | 'f' :: cs => .ok (some (Char.ofNat 12), cs)
  | 'n' :: cs => .ok (some '\n', cs)
  | 'r' :: cs => .ok (some '\r', cs)
  | 't' :: cs => .ok (some '\t', cs)
  | 'u' :: cs => readUnicodeEscape cs
  | _ => .error "invalid escape"

/-- Read up to the closing quotation mark. The number bounds the characters to come.
Those already read are given in reverse, unless one of them was none. -/
def readStringFrom :
    Nat → Option (List Char) → List Char → Except String (Option String × List Char)
  | 0, _, _ => .error "unexpected end of text"
  | _ + 1, _, [] => .error "unexpected end of text"
  | fuel + 1, before, c :: cs =>
    if c = '"' then .ok (before.map fun before => String.ofList before.reverse, cs)
    else if c = '\\' then
      match readEscape cs with
      | .ok (c, cs) => readStringFrom fuel (do return (← c) :: (← before)) cs
      | .error e => .error e
    else if c.toNat < 32 then .error "control character in a string"
    else readStringFrom fuel (before.map (c :: ·)) cs

/-- Read a text after its opening quotation mark; with half of a surrogate pair in it,
there is none. -/
def readString (cs : List Char) : Except String (Option String × List Char) :=
  readStringFrom (cs.length + 1) (some []) cs

/-- The digits at the front. -/
def spanDigits (cs : List Char) : List Char × List Char :=
  (cs.takeWhile Char.isDigit, cs.dropWhile Char.isDigit)

/-- The fraction of a number, if a point comes next. -/
def readFraction : List Char → Except String (Option (List Char) × List Char)
  | '.' :: cs =>
    let (digits, cs) := spanDigits cs
    if digits.isEmpty then .error "invalid number" else .ok (some digits, cs)
  | cs => .ok (none, cs)

/-- The exponent of a number, if its mark comes next: whether it is negative, and its
digits. -/
def readExponentPart : List Char → Except String (Option (Bool × List Char) × List Char)
  | [] => .ok (none, [])
  | c :: cs =>
    if c = 'e' ∨ c = 'E' then
      let (digits, rest) := spanDigits (Decimal.dropSign cs)
      if digits.isEmpty then .error "invalid number"
      else .ok (some (cs.head? == some '-', digits), rest)
    else .ok (none, c :: cs)

/-- Read a number. No digit follows a leading zero; beyond every double there is no
value. -/
def readNumber (cs : List Char) : Except String (Json × List Char) := do
  let negative := cs.head? == some '-'
  let (whole, rest) := spanDigits (if negative then cs.drop 1 else cs)
  if whole.isEmpty || (whole.head? == some '0' && 1 < whole.length) then throw "invalid number"
  let (fraction, rest) ← readFraction rest
  let (exponent, rest) ← readExponentPart rest
  return ((numberOf? negative whole fraction exponent).getD valueless, rest)

/-- What nests too deep has no value. -/
def nested (room : Nat) (document : Json) : Json := if room = 0 then valueless else document

/-- The object of members whose names may lack a value. -/
def objectOf (members : List (Option String × Json)) : Json :=
  match members.mapM fun (name?, member) => name?.map fun name => (name, member) with
  | some members => .object members
  | none => valueless

mutual

/-- Read one document. The first number bounds the steps, the second is the room for
nesting. -/
def readValue : Nat → Nat → List Char → Except String (Json × List Char)
  | 0, _, _ => .error "unexpected end of text"
  | fuel + 1, room, cs =>
    match skipBlanks cs with
    | 'n' :: 'u' :: 'l' :: 'l' :: rest => .ok (.null, rest)
    | 't' :: 'r' :: 'u' :: 'e' :: rest => .ok (.bool true, rest)
    | 'f' :: 'a' :: 'l' :: 's' :: 'e' :: rest => .ok (.bool false, rest)
    | '"' :: rest =>
      (readString rest).map fun (text?, rest) => ((text?.map .string).getD valueless, rest)
    | '[' :: rest =>
      match skipBlanks rest with
      | ']' :: rest => .ok (nested room (.array []), rest)
      | rest =>
        (readItems fuel (room - 1) rest).map fun (items, rest) => (nested room (.array items), rest)
    | '\x7b' :: rest =>
      match skipBlanks rest with
      | '\x7d' :: rest => .ok (nested room (.object []), rest)
      | rest =>
        (readMembers fuel (room - 1) rest).map fun (members, rest) =>
          (nested room (objectOf members), rest)
    | rest => readNumber rest
termination_by structural fuel => fuel

/-- Read the items of an array up to its end. -/
def readItems : Nat → Nat → List Char → Except String (List Json × List Char)
  | 0, _, _ => .error "unexpected end of text"
  | fuel + 1, room, cs => do
    let (item, rest) ← readValue fuel room cs
    match skipBlanks rest with
    | ',' :: rest =>
      let (items, rest) ← readItems fuel room rest
      return (item :: items, rest)
    | ']' :: rest => return ([item], rest)
    | _ => throw "expected a comma or the end of an array"
termination_by structural fuel => fuel

/-- Read the members of an object up to its end. -/
def readMembers :
    Nat → Nat → List Char → Except String (List (Option String × Json) × List Char)
  | 0, _, _ => .error "unexpected end of text"
  | fuel + 1, room, cs =>
    match skipBlanks cs with
    | '"' :: rest => do
      let (name, rest) ← readString rest
      match skipBlanks rest with
      | ':' :: rest =>
        let (member, rest) ← readValue fuel room rest
        match skipBlanks rest with
        | ',' :: rest =>
          let (members, rest) ← readMembers fuel room rest
          return ((name, member) :: members, rest)
        | '\x7d' :: rest => return ([(name, member)], rest)
        | _ => throw "expected a comma or the end of an object"
      | _ => throw "expected a colon"
    | _ => .error "expected a member name"
termination_by structural fuel => fuel

end

/-- The document that a whole text spells, with a mark in place of every part that has no
value. -/
def outline (text : String) : Except String Json := do
  let cs := text.toList
  let (document, rest) ← readValue (cs.length + 1) depthLimit cs
  if (skipBlanks rest).isEmpty then return document else throw "trailing characters"

/-- The document that a whole text spells, if every part of it has a value. -/
def parse (text : String) : Except String Json := do
  let document ← outline text
  if document.hasValue then return document else throw "a part without a value"

/-- A document that has been read holds no mark. -/
theorem hasValue_of_parse {text : String} {document : Json} (h : parse text = .ok document) :
    document.hasValue = true := by
  unfold parse at h
  cases hr : outline text with
  | error e => simp [hr, bind, Except.bind] at h
  | ok read =>
    simp only [hr, bind, Except.bind] at h
    split at h
    next hv =>
      cases h
      exact hv
    next => cases h

end EntityQuery.Json
