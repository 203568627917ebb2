import EntityQuery.Fault
import EntityQuery.Document.Forms
import EntityQuery.Text.Blank
import EntityQuery.Text.Pieces
import EntityQuery.Text.Lowercase

/-!
# Order clauses

An order clause lists the paths to sort by, the most significant first, each with an
optional direction. In a text the keys stand between commas, a direction follows its
path after blanks in any letter case, and empty parts are passed over.
-/

namespace EntityQuery

/-- The direction of a sort key. -/
inductive Direction where
  /-- From small to large. -/
  | ascending
  /-- From large to small. -/
  | descending
  deriving Repr, DecidableEq

/-- The word for a direction. -/
def Direction.word : Direction → String
  | ascending => "asc"
  | descending => "desc"

/-- The words for the directions. -/
def Direction.byWord : List (String × Direction) :=
  [("asc", ascending), ("desc", descending)]

/-- One path to sort by. -/
structure SortKey where
  /-- The path of the attribute. -/
  path : String
  /-- The direction, if one is given; ascending otherwise. -/
  direction : Option Direction
  deriving Repr, DecidableEq

/-- The key sorts from large to small. -/
def SortKey.isDescending (key : SortKey) : Bool := key.direction == some .descending

/-- The text of a key. -/
def SortKey.text (key : SortKey) : String :=
  match key.direction with
  | none => key.path
  | some direction => key.path ++ " " ++ direction.word

/-- The keys to sort by, the most significant first. -/
structure OrderClause where
  /-- The keys. -/
  keys : List SortKey
  deriving Repr, DecidableEq

namespace OrderClause

/-- Read a direction, in any letter case. -/
def readDirection (path word : String) : Except Fault Direction :=
  match Direction.byWord.lookup (Text.lowercaseAscii word) with
  | some direction => .ok direction
  | none => .error (.invalidDirection path word)

/-- Read the words of one part: nothing, a path, or a path with a direction. -/
def readKey? : List String → Except Fault (Option SortKey)
  | [] => .ok none
  | [path] => .ok (some ⟨path, none⟩)
  | path :: word :: rest => do
    let direction ← readDirection path word
    match rest with
    | [] => return some ⟨path, some direction⟩
    | extra :: _ => throw (.invalidDirection path extra)

/-- Read the parts in order and keep those that hold a key. -/
def readKeys : List String → Except Fault (List SortKey)
  | [] => .ok []
  | part :: parts => do
    let key? ← readKey? (Text.words part)
    let keys ← readKeys parts
    return key?.toList ++ keys

/-- Read a clause. It must name at least one path. -/
def parse (spec : String) : Except Fault OrderClause := do
  let keys ← readKeys (Text.pieces ',' spec)
  if keys.isEmpty then throw .emptyOrder else return ⟨keys⟩

/-- The text of a clause. -/
def text (clause : OrderClause) : String :=
  String.intercalate ", " (clause.keys.map SortKey.text)

/-- The document of a clause. -/
def toJson (clause : OrderClause) : Json :=
  .object [("items", .array (clause.keys.map fun key =>
    .object [("direction", Json.ofString? (key.direction.map Direction.word)),
      ("path", .string key.path)]))]

/-- Read a key from its document. -/
def readKeyDocument (document : Document) : Except String SortKey := do
  let get ← document.fields ["path", "direction"]
  return { path := ← get.required "path" Document.toText
           direction := ← get.optional "direction" (Document.toChoice Direction.byWord) }

/-- Read a clause; it may be without keys. -/
def ofDocument (document : Document) : Except String OrderClause := do
  let get ← document.fields ["items"]
  return ⟨← get.required "items" (Document.toList readKeyDocument)⟩

/-- The clause of a document. -/
def ofJson (document : Json) : Except String OrderClause := ofDocument (.ofJson document)

end OrderClause

end EntityQuery
