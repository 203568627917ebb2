import EntityQuery.Predicate.Basic
import EntityQuery.Value.Tagged

/-!
# Predicates as documents

Every predicate has a kind and, unless it is constant, arguments. Fixed operands are
tagged documents, so a predicate is read back as it was written. Reading does not
check validity.
-/

namespace EntityQuery

/-- The document of an operand, if its value has one. -/
def Operand.toJson? : Operand → Option Json
  | field path => some (.object [("param", .string "attribute"), ("v", .string path)])
  | literal value => value.toTagged?.map fun v => .object [("param", .string "const"), ("v", v)]

/-- Read an operand. -/
def Operand.ofDocument (document : Document) : Except String Operand := do
  let (tag, content) ← document.toTagged "param" "v" ["attribute", "const"]
  if tag = "attribute" then return field (← (← Document.expectContent content).toText)
  else if tag = "const" then
    return literal (← Value.ofTaggedDocument (← Document.expectContent content))
  else throw ("unknown operand " ++ tag)

/-- The connectives by name. -/
def Connective.byName : List (String × Connective) := [("and", and), ("or", or)]

/-- The name of a connective. -/
def Connective.name : Connective → String
  | and => "and"
  | or => "or"

/-- The quantifiers by name. -/
def Quantifier.byName : List (String × Quantifier) := [("all", all), ("any", any)]

/-- The name of a quantifier. -/
def Quantifier.name : Quantifier → String
  | all => "all"
  | any => "any"

/-- The kinds of coordinates by name. -/
def ShapeKind.byName : List (String × ShapeKind) :=
  [("geography", geography), ("geometry", geometry)]

/-- The name of a kind of coordinates. -/
def ShapeKind.name : ShapeKind → String
  | geography => "geography"
  | geometry => "geometry"

/-- The document of a shape test. -/
def ShapeTest.toJson : ShapeTest → Json
  | intersects shape => .object [("test", .string "intersects"), ("value", .string shape)]
  | distance shape op limit =>
    .object [("distance", if Decimal.isFiniteFloat limit then .float limit else .null),
      ("op", .string op.name), ("test", .string "distance"), ("value", .string shape)]

/-- Read a shape test. -/
def ShapeTest.ofDocument (document : Document) : Except String ShapeTest := do
  let (test, document) ← document.toTaggedFields "test" ["intersects", "distance"]
  if test = "intersects" then
    let get ← document.fields ["value"]
    return intersects (← get.required "value" Document.toText)
  else if test = "distance" then
    let get ← document.fields ["value", "op", "distance"]
    return distance (← get.required "value" Document.toText)
      (← get.required "op" (Document.toChoice Comparison.byName))
      (← get.required "distance" Document.toFloat)
  else throw ("unknown test " ++ test)

namespace Predicate

/-- A kind with arguments. -/
def document (kind : String) (arguments : Json) : Json :=
  .object [("args", arguments), ("kind", .string kind)]

mutual

/-- The document of a predicate, if its fixed values have one. -/
def toJson? : Predicate → Option Json
  | compare left op right => do
    return document "simple" (.object [("left", ← left.toJson?), ("op", .string op.name),
      ("right", ← right.toJson?)])
  | compareDates left op right timeless => do
    return document "date" (.object [("left", ← left.toJson?), ("op", .string op.name),
      ("right", ← right.toJson?), ("timeless", .bool timeless)])
  | group connective members => do
    return document "complex" (.object [("condition", .string connective.name),
      ("predicates", .array (← membersToJson? members))])
  | contains path text =>
    some (document "string" (.object [("contains", .string text), ("path", .string path)]))
  | shape kind path test =>
    some (document "spatial" (.object [("kind", .string kind.name), ("op", test.toJson),
      ("path", .string path)]))
  | quantified path quantifier body => do
    return document "detail" (.object [("path", .string path), ("predicate", ← toJson? body),
      ("quantifier", .string quantifier.name)])
  | not body => do return document "not" (← toJson? body)
  | isOf expression typeName =>
    some (document "is_of" (.object [("expression", Json.ofString? expression),
      ("type_name", .string typeName)]))
  | const true => some (.object [("kind", .string "true")])
  | const false => some (.object [("kind", .string "false")])
termination_by structural predicate => predicate

/-- The documents of the members of a group. -/
def membersToJson? : List Predicate → Option (List Json)
  | [] => some []
  | member :: members => do return (← toJson? member) :: (← membersToJson? members)
termination_by structural members => members

end

/-- Read the arguments of a comparison. -/
def readCompare (arguments : Document) : Except String Predicate := do
  let get ← arguments.fields ["left", "op", "right"]
  return compare (← get.required "left" Operand.ofDocument)
    (← get.required "op" (Document.toChoice Comparison.byName))
    (← get.required "right" Operand.ofDocument)

/-- Read the arguments of a date comparison. -/
def readCompareDates (arguments : Document) : Except String Predicate := do
  let get ← arguments.fields ["left", "op", "right", "timeless"]
  return compareDates (← get.required "left" Operand.ofDocument)
    (← get.required "op" (Document.toChoice Comparison.byName))
    (← get.required "right" Operand.ofDocument)
    (← get.withDefault "timeless" Document.toBool false)

/-- Read the arguments of a text search. -/
def readContains (arguments : Document) : Except String Predicate := do
  let get ← arguments.fields ["path", "contains"]
  return contains (← get.required "path" Document.toText)
    (← get.required "contains" Document.toText)

/-- Read the arguments of a shape test. -/
def readShape (arguments : Document) : Except String Predicate := do
  let get ← arguments.fields ["kind", "path", "op"]
  return shape (← get.required "kind" (Document.toChoice ShapeKind.byName))
    (← get.required "path" Document.toText) (← get.required "op" ShapeTest.ofDocument)

/-- Read the arguments of a type assertion. -/
def readIsOf (arguments : Document) : Except String Predicate := do
  let get ← arguments.fields ["expression", "type_name"]
  return isOf (← get.optional "expression" Document.toText)
    (← get.required "type_name" Document.toText)

/-- Read the arguments of a group, given how its members are read. -/
def readGroup (read : Document → Except String Predicate) (arguments : Document) :
    Except String Predicate := do
  let get ← arguments.fields ["condition", "predicates"]
  return group (← get.required "condition" (Document.toChoice Connective.byName))
    (← get.required "predicates" (Document.toList read))

/-- Read the arguments of a quantifier, given how its condition is read. -/
def readQuantified (read : Document → Except String Predicate) (arguments : Document) :
    Except String Predicate := do
  let get ← arguments.fields ["path", "quantifier", "predicate"]
  return quantified (← get.required "path" Document.toText)
    (← get.required "quantifier" (Document.toChoice Quantifier.byName))
    (← get.required "predicate" read)

/-- The kinds of predicates in order. -/
def kinds : List String :=
  ["simple", "date", "complex", "string", "spatial", "detail", "not", "is_of", "true", "false"]

/-- Read a predicate nested at most so deep. -/
def ofDocumentWithin : Nat → Document → Except String Predicate
  | 0, _ => .error "nested too deep"
  | fuel + 1, document => do
    let (kind, content) ← document.toTagged "kind" "args" kinds
    if kind = "simple" then readCompare (← Document.expectContent content)
    else if kind = "date" then readCompareDates (← Document.expectContent content)
    else if kind = "complex" then
      readGroup (ofDocumentWithin fuel) (← Document.expectContent content)
    else if kind = "string" then readContains (← Document.expectContent content)
    else if kind = "spatial" then readShape (← Document.expectContent content)
    else if kind = "detail" then
      readQuantified (ofDocumentWithin fuel) (← Document.expectContent content)
    else if kind = "not" then
      return not (← ofDocumentWithin fuel (← Document.expectContent content))
    else if kind = "is_of" then readIsOf (← Document.expectContent content)
    else if kind = "true" then
      Document.expectNoContent content
      return const true
    else if kind = "false" then
      Document.expectNoContent content
      return const false
    else throw ("unknown predicate " ++ kind)
termination_by structural fuel => fuel

/-- Read a predicate. -/
def ofDocument (document : Document) : Except String Predicate :=
  ofDocumentWithin (document.content.depth + 1) document

/-- The predicate of a document. -/
def ofJson (json : Json) : Except String Predicate := ofDocument (.ofJson json)

end Predicate

end EntityQuery
