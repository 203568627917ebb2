import EntityQuery.Entries

/-!
# Arguments of the command line

Options begin with two dashes; a value stands behind an equals sign or in the next
argument, where it may not begin with a dash. The options for the settings and for the
format may stand before the command and behind it, and count behind it. Every option is
given at most once on either side.
-/

namespace EntityQuery.CommandLine

/-- The format of the answers. -/
inductive Format where
  /-- Plain lines. -/
  | text
  /-- One JSON document. -/
  | json
  deriving Repr, DecidableEq

/-- The formats by name. -/
def Format.byName : List (String × Format) := [("text", text), ("json", json)]

/-- What stands behind an option. -/
inductive OptionKind where
  /-- Nothing. -/
  | flag
  /-- The path of a file. -/
  | file
  /-- A text. -/
  | text
  /-- The name of a format. -/
  | format
  deriving Repr, DecidableEq

/-- An option may have a value. -/
def OptionKind.admits : OptionKind → String → Bool
  | flag, _ => false
  | file, value => !value.isEmpty
  | text, _ => true
  | format, value => (Format.byName.lookup value).isSome

/-- What the program is asked to do. -/
inductive Verb where
  /-- Print the address of a remote request. -/
  | url
  /-- Run a query on records. -/
  | run
  /-- Print the index layouts that a query needs. -/
  | indexSchema
  deriving Repr, DecidableEq

/-- The verbs by name. -/
def Verb.byName : List (String × Verb) :=
  [("url", url), ("run", run), ("index-schema", indexSchema)]

/-- The options that may stand on either side of the verb. -/
def globalOptions : List (String × OptionKind) := [("config", .file), ("format", .format)]

/-- The options behind every verb. -/
def queryOptions : List (String × OptionKind) := [("schema", .file), ("query", .file)]

/-- The options of a verb. -/
def Verb.options : Verb → List (String × OptionKind)
  | url => queryOptions ++ [("base", .text)]
  | run => queryOptions ++ [("records", .file), ("local", .flag)]
  | indexSchema => queryOptions

/-- The name of an option and the value attached to it. -/
def splitOption? (argument : String) : Option (String × Option String) :=
  match argument.toList with
  | '-' :: '-' :: c :: rest =>
    let name := String.ofList ((c :: rest).takeWhile (· != '='))
    match (c :: rest).dropWhile (· != '=') with
    | _ :: value => some (name, some (String.ofList value))
    | [] => some (name, none)
  | _ => none

/-- An argument of its own may be the value of an option: no dash leads anything. -/
def isSeparateValue (argument : String) : Bool :=
  match argument.toList with
  | '-' :: _ :: _ => false
  | _ => true

/-- Read options up to the first argument that is none. -/
def scan (options : List (String × OptionKind)) (given : Entries String) :
    List String → Option (Entries String × List String)
  | [] => some (given, [])
  | argument :: rest =>
    match splitOption? argument with
    | none => some (given, argument :: rest)
    | some (name, attached) =>
      if given.contains name then none
      else
        match options.lookup name, attached, rest with
        | none, _, _ => none
        | some .flag, none, rest => scan options (given.insert name "") rest
        | some kind, some value, rest =>
          if kind.admits value then scan options (given.insert name value) rest else none
        | some kind, none, value :: rest =>
          if isSeparateValue value && kind.admits value then
            scan options (given.insert name value) rest
          else none
        | some _, none, [] => none

/-- Where the schema and the query are. -/
structure Sources where
  /-- The file of the schema. -/
  schema : String
  /-- The file of the query. -/
  query : String
  deriving Repr, DecidableEq

/-- A command with its options. -/
inductive Command where
  /-- Print the address of a remote request below a base address. -/
  | url (sources : Sources) (base : String)
  /-- Run a query on the records of a file, through a store if wanted. -/
  | run (sources : Sources) (records : String) (throughStore : Bool)
  /-- Print the index layouts that a query needs. -/
  | indexSchema (sources : Sources)
  deriving Repr, DecidableEq

/-- All that the arguments say. -/
structure Invocation where
  /-- The file of the settings. -/
  config : Option String
  /-- The format of the answer. -/
  format : Format
  /-- The command. -/
  command : Command
  deriving Repr, DecidableEq

/-- The command of a verb, if its options are complete. -/
def Command.ofOptions? (verb : Verb) (given : Entries String) : Option Command := do
  let sources := ⟨← given.get? "schema", ← given.get? "query"⟩
  match verb with
  | .url => return url sources (← given.get? "base")
  | .run => return run sources (← given.get? "records") (given.contains "local")
  | .indexSchema => return indexSchema sources

/-- Nothing may follow the options of a verb but a mark that says so. -/
def isEnd (rest : List String) : Bool := rest == [] || rest == ["--"]

/-- Read the arguments; those that make no sense give nothing. -/
def Invocation.parse? (arguments : List String) : Option Invocation := do
  let (before, rest) ← scan globalOptions [] arguments
  let verb ← Verb.byName.lookup (← rest.head?)
  let (given, rest) ← scan (globalOptions ++ verb.options) [] rest.tail
  guard (isEnd rest)
  let setting (name : String) : Option String := (given.get? name).or (before.get? name)
  let format := (setting "format").bind fun name => Format.byName.lookup name
  return ⟨setting "config", format.getD .text, ← Command.ofOptions? verb given⟩

end EntityQuery.CommandLine
