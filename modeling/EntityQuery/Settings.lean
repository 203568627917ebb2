import EntityQuery.Fault
import EntityQuery.Document.Forms
import EntityQuery.Text.Uppercase
import EntityQuery.Toml.Reader

/-!
# Settings

Settings decide how far a query without a selection reaches, and how remote requests
are spelled. Every setting has a default, and a document of settings may leave any of
them out.
-/

namespace EntityQuery

/-- How a field without a remote name is spelled in requests. -/
inductive NameCase where
  /-- With a capital first letter. -/
  | pascal
  /-- As it is. -/
  | asIs
  deriving Repr, DecidableEq

/-- Spell a name. -/
def NameCase.apply : NameCase → String → String
  | pascal, name => Text.capitalize name
  | asIs, name => name

/-- The spellings by name. -/
def NameCase.byName : List (String × NameCase) := [("pascal", pascal), ("as-is", asIs)]

/-- The name of a spelling. -/
def NameCase.name : NameCase → String
  | pascal => "pascal"
  | asIs => "as-is"

/-- How queries are built. -/
structure BuildSettings where
  /-- How many relationships a query without a selection follows in a row. -/
  expandDepth : Nat := 5
  deriving Repr, DecidableEq

/-- How remote requests are spelled. -/
structure RemoteSettings where
  /-- The spelling of field names. -/
  nameCase : NameCase := .pascal
  /-- The beginning of the names of bound variables. -/
  lambdaPrefix : String := "f"
  /-- The beginning of the names of the standard options. -/
  paramPrefix : String := "$"
  /-- Text searches ignore the letter case. -/
  caselessContains : Bool := true
  /-- The namespace of type names without one. -/
  typeNamespace : Option String := none
  deriving Repr, DecidableEq

/-- Put a type name into the namespace, unless it holds a dot already. -/
def RemoteSettings.qualify (settings : RemoteSettings) (typeName : String) : String :=
  match settings.typeNamespace with
  | none => typeName
  | some space => if typeName.toList.contains '.' then typeName else space ++ "." ++ typeName

/-- All settings. -/
structure Settings where
  /-- How queries are built. -/
  build : BuildSettings := {}
  /-- How remote requests are spelled. -/
  remote : RemoteSettings := {}
  deriving Repr, DecidableEq

namespace Settings

/-- Settings that keep field names as they are. -/
def verbatimNames : Settings := { remote := { nameCase := .asIs } }

/-- Read how queries are built. -/
def readBuild (document : Document) : Except String BuildSettings := do
  let get ← document.fields ["expand_depth"]
  return { expandDepth := ← get.withDefault "expand_depth" Document.toNat 5 }

/-- Read how remote requests are spelled. -/
def readRemote (document : Document) : Except String RemoteSettings := do
  let get ← document.fields ["name_case", "lambda_prefix", "param_prefix",
    "case_insensitive_contains", "type_namespace"]
  let readNamespace := Document.toOption Document.toText
  return { nameCase := ← get.withDefault "name_case" (Document.toChoice NameCase.byName) .pascal
           lambdaPrefix := ← get.withDefault "lambda_prefix" Document.toText "f"
           paramPrefix := ← get.withDefault "param_prefix" Document.toText "$"
           caselessContains := ← get.withDefault "case_insensitive_contains" Document.toBool true
           typeNamespace := ← get.withDefault "type_namespace" readNamespace none }

/-- Read settings. -/
def ofDocument (document : Document) : Except String Settings := do
  let get ← document.fields ["builder", "protocol"]
  return { build := ← get.withDefault "builder" readBuild {}
           remote := ← get.withDefault "protocol" readRemote {} }

/-- The settings of a document. -/
def ofJson (document : Json) : Except String Settings := ofDocument (.ofJson document)

/-- Read settings from a TOML text. -/
def ofTomlText (text : String) : Except Fault Settings :=
  (Toml.parse text >>= ofDocument).mapError .configuration

/-- The document of settings. -/
def toJson (settings : Settings) : Json :=
  .object [
    ("builder", .object [("expand_depth", .int settings.build.expandDepth)]),
    ("protocol", .object [
      ("case_insensitive_contains", .bool settings.remote.caselessContains),
      ("lambda_prefix", .string settings.remote.lambdaPrefix),
      ("name_case", .string settings.remote.nameCase.name),
      ("param_prefix", .string settings.remote.paramPrefix),
      ("type_namespace", Json.ofString? settings.remote.typeNamespace)])]

end Settings

end EntityQuery
