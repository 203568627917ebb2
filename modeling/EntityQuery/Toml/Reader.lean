import EntityQuery.Document.Basic
import EntityQuery.Toml.Scalar
import EntityQuery.Toml.Table
import EntityQuery.Toml.Text

/-!
# Reading TOML

A document is a sequence of lines, each with a key and its value, a header in single
or double brackets, or nothing, and perhaps a comment. Keys are bare or quoted and may
be dotted. Arrays may run over several lines, tables in braces may not. Values nest at
most 79 deep, and a key has at most 79 parts. What is read is given as a document of
the other format, so that one reading of structures serves both.
-/

namespace EntityQuery.Toml

/-- Drop a comment up to the end of its line. -/
def skipComment : List Char → Except String (List Char)
  | '#' :: cs =>
    match cs.dropWhile isPlain with
    | [] => .ok []
    | '\n' :: rest => .ok ('\n' :: rest)
    | _ => .error "control character in a comment"
  | cs => .ok cs

/-- Drop blanks, line breaks and comments. The number bounds the steps. -/
def skipLines : Nat → List Char → Except String (List Char)
  | 0, _ => .error "unexpected end of text"
  | fuel + 1, cs =>
    match cs.dropWhile (fun c => isInlineBlank c || c == '\n') with
    | '#' :: rest =>
      match skipComment ('#' :: rest) with
      | .ok rest => skipLines fuel rest
      | .error e => .error e
    | rest => .ok rest

/-- Characters of a bare key. -/
def isBareKeyChar (c : Char) : Bool := c.isAlphanum || c == '-' || c == '_'

/-- Read one part of a key. -/
def readKeyPart (cs : List Char) : Except String (String × List Char) :=
  match readShortText? cs with
  | some result => result
  | none =>
    let key := cs.takeWhile isBareKeyChar
    if key.isEmpty then .error "expected a key"
    else .ok (String.ofList key, cs.dropWhile isBareKeyChar)

/-- How deep arrays and tables in braces may nest, and how many parts a key may have. -/
def nestingLimit : Nat := 79

/-- Read the parts of a key with blanks around them. The number bounds the parts. -/
def readKeyParts : Nat → List Char → Except String (List String × List Char)
  | 0, _ => .error "too many parts"
  | room + 1, cs => do
    let (part, rest) ← readKeyPart (skipInline cs)
    match skipInline rest with
    | '.' :: rest =>
      let (parts, rest) ← readKeyParts room rest
      return (part :: parts, rest)
    | rest => return ([part], rest)

/-- Read a dotted key. -/
def readKey (cs : List Char) : Except String (List String × List Char) :=
  readKeyParts nestingLimit cs

mutual

/-- Read a value. The first number bounds the steps, the second is the room for
nesting. -/
def readValue : Nat → Nat → List Char → Except String (Json × List Char)
  | 0, _, _ => .error "unexpected end of text"
  | fuel + 1, room, cs =>
    match readText? cs with
    | some result => result.map fun (text, rest) => (.string text, rest)
    | none =>
      match room, cs with
      | 0, '[' :: _ | 0, '\x7b' :: _ => .error "nested too deep"
      | room + 1, '[' :: rest =>
        (readItems fuel room rest).map fun (items, rest) => (.array items, rest)
      | room + 1, '\x7b' :: rest =>
        match skipInline rest with
        | '\x7d' :: rest => .ok (.object [], rest)
        | rest =>
          (readInline fuel room [] rest).map fun (entries, rest) =>
            (.object (Node.entriesToJson entries), rest)
      | _, _ => readScalar cs
termination_by structural fuel => fuel

/-- Read the items of an array up to its end; a comma may follow the last one. -/
def readItems : Nat → Nat → List Char → Except String (List Json × List Char)
  | 0, _, _ => .error "unexpected end of text"
  | fuel + 1, room, cs => do
    match (← skipLines (cs.length + 1) cs) with
    | ']' :: rest => return ([], rest)
    | rest =>
      let (item, rest) ← readValue fuel room rest
      match (← skipLines (rest.length + 1) rest) with
      | ',' :: rest =>
        let (items, rest) ← readItems fuel room rest
        return (item :: items, rest)
      | ']' :: rest => return ([item], rest)
      | _ => throw "expected a comma or the end of an array"
termination_by structural fuel => fuel

/-- Read the members of a table in braces up to its end. -/
def readInline :
    Nat → Nat → Entries Node → List Char → Except String (Entries Node × List Char)
  | 0, _, _, _ => .error "unexpected end of text"
  | fuel + 1, room, entries, cs => do
    let (key, rest) ← readKey cs
    match rest with
    | '=' :: rest =>
      let (document, rest) ← readValue fuel room (skipInline rest)
      let entries ← addDotted document key entries
      match skipInline rest with
      | ',' :: rest => readInline fuel room entries rest
      | '\x7d' :: rest => return (entries, rest)
      | _ => throw "expected a comma or the end of a table"
    | _ => throw "expected an equals sign"
termination_by structural fuel => fuel

end

/-- A document in the making: the tables finished so far and the one being filled. -/
structure Draft where
  /-- The finished tables. -/
  root : Entries Node
  /-- Where the table being filled belongs; nowhere means that it is the root. -/
  path : List String
  /-- The table being filled belongs to a list of tables. -/
  listed : Bool
  /-- The contents of the table being filled. -/
  current : Entries Node

/-- Finish the table being filled. -/
def Draft.close (draft : Draft) : Except String (Entries Node) :=
  if draft.path.isEmpty then .ok draft.current
  else closeTable draft.listed draft.current draft.path draft.root

/-- Turn to the table of a header. -/
def Draft.turnTo (draft : Draft) (listed : Bool) (path : List String) : Except String Draft := do
  let root ← draft.close
  let current ← if listed then pure [] else openTable path root
  return { root, path, listed, current }

/-- Read a header up to its closing brackets. -/
def readHeader (draft : Draft) : List Char → Except String (Draft × List Char)
  | '[' :: cs => do
    let (path, rest) ← readKey cs
    match rest with
    | ']' :: ']' :: rest => return (← draft.turnTo true path, rest)
    | _ => throw "expected the end of a header"
  | cs => do
    let (path, rest) ← readKey cs
    match rest with
    | ']' :: rest => return (← draft.turnTo false path, rest)
    | _ => throw "expected the end of a header"

/-- Read a key and its value into the table being filled. -/
def readPair (draft : Draft) (cs : List Char) : Except String (Draft × List Char) := do
  let (key, rest) ← readKey cs
  match rest with
  | '=' :: rest =>
    let (document, rest) ← readValue (rest.length + 1) nestingLimit (skipInline rest)
    return ({ draft with current := ← addDotted document key draft.current }, rest)
  | _ => throw "expected an equals sign"

/-- Nothing but a comment stands between here and the end of the line. -/
def endLine (cs : List Char) : Except String (List Char) := do
  match ← skipComment (skipInline cs) with
  | [] => return []
  | '\n' :: rest => return rest
  | _ => throw "expected the end of a line"

/-- Read the lines of a document. The number bounds them. -/
def readLines : Nat → Draft → List Char → Except String Draft
  | 0, _, _ => .error "unexpected end of text"
  | fuel + 1, draft, cs => do
    match ← skipLines (cs.length + 1) cs with
    | [] => return draft
    | '[' :: rest =>
      let (draft, rest) ← readHeader draft rest
      readLines fuel draft (← endLine rest)
    | rest =>
      let (draft, rest) ← readPair draft rest
      readLines fuel draft (← endLine rest)

/-- Drop a byte order mark at the beginning. -/
def dropMark : List Char → List Char
  | c :: cs => if c.toNat = 0xfeff then cs else c :: cs
  | [] => []

/-- The document that a whole text spells. -/
def parse (text : String) : Except String Document := do
  let cs := normalizeBreaks (dropMark text.toList)
  let draft ← readLines (cs.length + 1) ⟨[], [], false, []⟩ cs
  return ⟨.object (Node.entriesToJson (← draft.close)), .toml⟩

end EntityQuery.Toml
