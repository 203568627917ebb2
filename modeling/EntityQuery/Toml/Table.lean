import EntityQuery.Json.Basic

/-!
# Tables of a TOML document

A document is built up table by table. A table that a header or a dotted key only
passes through is implicit and may still be opened, once; a table that dotted keys
made can only be filled by dotted keys; and a list of tables grows by one with every
header in double brackets. A key that leads through such a list means its latest table.
Anything else that is named twice is refused.
-/

namespace EntityQuery.Toml

/-- What stands under a key. -/
inductive Node where
  /-- A finished value. -/
  | value (document : Json)
  /-- A table: only passed through so far, made by dotted keys, and its contents. -/
  | table (implicit dotted : Bool) (entries : List (String × Node))
  /-- A list of tables, the latest first. -/
  | tables (latestFirst : List (List (String × Node)))
  deriving Inhabited

mutual

/-- The document of what stands under a key. -/
def Node.toJson : Node → Json
  | .value document => document
  | .table _ _ entries => .object (Node.entriesToJson entries)
  | .tables latestFirst => .array (Node.tablesToJson latestFirst).reverse
termination_by structural node => node

/-- The members of the document of a table. -/
def Node.entriesToJson : List (String × Node) → List (String × Json)
  | [] => []
  | (key, node) :: entries => (key, node.toJson) :: Node.entriesToJson entries
termination_by structural entries => entries

/-- The documents of a list of tables. -/
def Node.tablesToJson : List (List (String × Node)) → List Json
  | [] => []
  | entries :: rest => .object (Node.entriesToJson entries) :: Node.tablesToJson rest
termination_by structural latestFirst => latestFirst

end

/-- The refusal of a key that is there already. -/
def duplicate {α : Type} (key : String) : Except String α := .error ("duplicate key " ++ key)

/-- Put a value under a key that is still free. -/
def addValue (entries : Entries Node) (key : String) (document : Json) :
    Except String (Entries Node) :=
  if entries.contains key then duplicate key else .ok (entries.insert key (.value document))

/-- Put a value below a table by a dotted key. -/
def addDotted (document : Json) : List String → Entries Node → Except String (Entries Node)
  | [], _ => .error "empty key"
  | [key], entries => addValue entries key document
  | key :: keys, entries =>
    match entries.get? key with
    | none => do return entries.insert key (.table true true (← addDotted document keys []))
    | some (.table true true inner) => do
      return entries.insert key (.table true true (← addDotted document keys inner))
    | some (.table true false inner) =>
      match keys with
      | [_] => duplicate key
      | _ => do return entries.insert key (.table true false (← addDotted document keys inner))
    | some (.tables (latest :: older)) =>
      match keys with
      | [_] => duplicate key
      | _ => do return entries.insert key (.tables ((← addDotted document keys latest) :: older))
    | some _ => duplicate key

/-- Open a table by a header: the contents that an implicit table of that name already has. -/
def openTable : List String → Entries Node → Except String (Entries Node)
  | [], _ => .error "empty key"
  | [key], entries =>
    match entries.get? key with
    | none => .ok []
    | some (.table true false inner) => .ok inner
    | some _ => duplicate key
  | key :: keys, entries =>
    match entries.get? key with
    | none => openTable keys []
    | some (.table _ _ inner) => openTable keys inner
    | some (.tables (inner :: _)) => openTable keys inner
    | some _ => duplicate key

/-- Put a filled table where its header says, or add it to the list of tables there. -/
def closeTable (listed : Bool) (contents : Entries Node) :
    List String → Entries Node → Except String (Entries Node)
  | [], _ => .error "empty key"
  | [key], entries =>
    if listed then
      match entries.get? key with
      | none => .ok (entries.insert key (.tables [contents]))
      | some (.tables latestFirst) => .ok (entries.insert key (.tables (contents :: latestFirst)))
      | some _ => duplicate key
    else .ok (entries.insert key (.table false false contents))
  | key :: keys, entries =>
    match entries.get? key with
    | none => do
      return entries.insert key (.table true false (← closeTable listed contents keys []))
    | some (.table implicit dotted inner) => do
      return entries.insert key
        (.table implicit dotted (← closeTable listed contents keys inner))
    | some (.tables (inner :: older)) => do
      return entries.insert key (.tables ((← closeTable listed contents keys inner) :: older))
    | some _ => duplicate key

end EntityQuery.Toml
