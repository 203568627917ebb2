import EntityQuery.CommandLine.Arguments
import EntityQuery.Query.Build
import EntityQuery.Query.Document
import EntityQuery.Remote.Request
import EntityQuery.Store.Tables

/-!
# Running the command line

The program reads the settings, the schema, the query and, if needed, the records, in
this order, and prints its answer or stops at the first failure. How files are read is
left open, so that the program can be run on files that exist nowhere.
-/

namespace EntityQuery.CommandLine

/-- Why the program stops. -/
inductive Failure where
  /-- A file cannot be read, or its content has the wrong form. -/
  | file (path detail : String)
  /-- A fault of the query. -/
  | fault (fault : Fault)
  /-- A file of records holds something else. -/
  | notRecords (path : String)
  deriving Repr, DecidableEq

/-- The message of a failure. -/
def Failure.message : Failure → String
  | file path detail => path ++ ": " ++ detail
  | fault cause => cause.message
  | notRecords path => path ++ ": expected a JSON array of records"

/-- What the program does in the end. -/
inductive Outcome where
  /-- The arguments make no sense. -/
  | usage
  /-- It stops. -/
  | failed (failure : Failure)
  /-- It prints an answer. -/
  | printed (text : String)
  deriving Repr, DecidableEq

/-- The name of a file ends in the given extension, in any letter case. A name that is
nothing but an extension has none. -/
def hasExtension (extension path : String) : Bool :=
  let name := path.toList.reverse.takeWhile (· != '/')
  let ending := name.takeWhile (· != '.')
  let before := name.dropWhile (· != '.')
  1 < before.length && Text.lowercaseAscii (String.ofList ending.reverse) == extension

/-- Lines of text. -/
def lines (texts : List String) : String := String.join (texts.map (· ++ "\n"))

/-- The text of a document on several lines. -/
def documentText (document : Json) : String := lines [document.pretty 0]

/-- The answer to a request for an address. -/
def urlText (format : Format) (url : String) (request : Remote.Request) : String :=
  match format with
  | .text => lines [url]
  | .json =>
    let params : Entries Json := Entries.ofList (request.pairs.map fun (key, value) =>
      (key, .string value))
    documentText (.object [("params", .object params), ("url", .string url)])

/-- The answer to a query on records. -/
def rowsText (format : Format) (rows : List Record) : String :=
  match format with
  | .text => lines (rows.map fun row => row.toJson.compact)
  | .json => documentText (.array (rows.map Record.toJson))

/-- The answer to a request for index layouts. -/
def layoutsText (format : Format) (layouts : Entries Store.Layout) : String :=
  match format with
  | .text => lines (layouts.map fun (entityType, layout) => entityType ++ ": " ++ layout.text)
  | .json => documentText (.object (layouts.mapContents fun layout => .string layout.text))

section

variable {m : Type → Type} [Monad m] (read : String → m (Except String String))

/-- The text of a file. -/
def readText (path : String) : ExceptT Failure m String := do
  match ← read path with
  | .ok text => return text
  | .error detail => throw (.file path detail)

/-- What a file says, if it has the right form. -/
def readAs {α : Type} (path : String) (parse : String → Except String α) :
    ExceptT Failure m α := do
  match parse (← readText read path) with
  | .ok content => return content
  | .error detail => throw (.file path detail)

/-- Go on unless there is a fault. -/
def check {α : Type} (result : Except Fault α) : ExceptT Failure m α :=
  match result with
  | .ok content => pure content
  | .error fault => throw (.fault fault)

/-- The settings of a file, or the usual ones. -/
def readSettings (path : Option String) : ExceptT Failure m Settings := do
  match path with
  | none => return {}
  | some path => check (Settings.ofTomlText (← readText read path))

/-- The schema of a file, which is in JSON or in TOML by its extension. -/
def readSchema (path : String) : ExceptT Failure m Schema := do
  let text ← readText read path
  check (if hasExtension "json" path then Schema.ofJsonText text else Schema.ofTomlText text)

/-- The steps of the query in a file. -/
def readSteps (path : String) : ExceptT Failure m (List Step) := do
  let document ← readAs read path fun text => Json.parse text >>= QueryDocument.ofJson
  match document.steps with
  | .ok steps => return steps
  | .error (.malformed detail) => throw (.file path detail)
  | .error (.fault fault) => throw (.fault fault)

/-- The records of a file. -/
def readRecords (path : String) : ExceptT Failure m (List Record) := do
  match ← readAs read path Json.parse with
  | .array items => return items.map Record.ofJson
  | _ => throw (.notRecords path)

/-- The schema and the query of two files. -/
def readQuery (sources : Sources) (settings : Settings) : ExceptT Failure m (Schema × Query) := do
  let schema ← readSchema read sources.schema
  let steps ← readSteps read sources.query
  return (schema, ← check ((Draft.ofSteps steps).build schema settings.build))

/-- Run a query on records, directly or through a store with one table. -/
def queryRecords (schema : Schema) (query : Query) (throughStore : Bool)
    (records : List Record) : Except Fault (List Record) :=
  if throughStore then
    (({} : Store).withTable query.entityType records).run schema .standard query
  else (Rows.Pipeline.ofQuery schema .standard query).map (·.run records)

/-- The answer to a command. -/
def answer (invocation : Invocation) : ExceptT Failure m String := do
  let settings ← readSettings read invocation.config
  match invocation.command with
  | .url sources base =>
    let (schema, query) ← readQuery read sources settings
    let context : Remote.Context := { schema, settings := settings.remote }
    let url ← check (context.url base query)
    return urlText invocation.format url (← check (context.request query))
  | .run sources records throughStore =>
    let (schema, query) ← readQuery read sources settings
    let records ← readRecords read records
    return rowsText invocation.format (← check (queryRecords schema query throughStore records))
  | .indexSchema sources =>
    let (schema, query) ← readQuery read sources settings
    return layoutsText invocation.format (← check (Store.layoutsOf schema query))

/-- Run the program on its arguments. -/
def run (arguments : List String) : m Outcome := do
  match Invocation.parse? arguments with
  | none => return .usage
  | some invocation =>
    match ← (answer read invocation).run with
    | .ok text => return .printed text
    | .error failure => return .failed failure

end

end EntityQuery.CommandLine
