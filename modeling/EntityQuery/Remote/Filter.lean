import EntityQuery.Dates
import EntityQuery.Decimal.Numeral
import EntityQuery.OrderClause
import EntityQuery.Remote.Expression
import EntityQuery.Schema.Lookup
import EntityQuery.Settings
import EntityQuery.Text.Lowercase

/-!
# Filters for remote services

Predicates and order clauses are put into the words of a remote service. A
relationship to one record that is compared with a literal stands for the key of that
record, and a literal is spelled by the declared type of the field on the other side.
A literal that does not fit that type is refused.
-/

namespace EntityQuery.Remote

/-- What the requests of a service depend on. -/
structure Context where
  /-- The schema. -/
  schema : Schema
  /-- How requests are spelled. -/
  settings : RemoteSettings
  /-- How dates are read and written. -/
  dates : DateStyle := .standard

/-- The records that a part of a filter is about. -/
structure Scope where
  /-- Their type. -/
  entityType : String
  /-- The variable that names them; none for the queried records. -/
  binder? : Option String
  /-- The number of quantifiers around. -/
  depth : Nat

/-- The scope of a whole filter. -/
def Scope.root (entityType : String) : Scope := ⟨entityType, none, 0⟩

namespace Context

/-- The name of a field in requests. -/
def remoteName (context : Context) (field : Field) : String :=
  field.remoteName?.getD (context.settings.nameCase.apply field.name)

/-- The reference of a path, and the field at its end. -/
def reference (context : Context) (scope : Scope) (path : String) :
    Except Fault (Reference × Field) := do
  let (chain, last) ← context.schema.resolveEnd scope.entityType path
  return (⟨scope.binder?, chain.map context.remoteName⟩, last)

/-- A number as it is written for a numeric field. -/
def numericLiteral (field : Field) (value : Value) : Except Fault Literal :=
  let mismatch : Except Fault Literal :=
    .error (.invalidArguments (.literalMismatch value.kind value.text field.owner field.name))
  match value with
  | .int _ | .float _ => .ok (.bare value.text)
  | .string raw =>
    if Decimal.isFiniteNumber (Text.trim raw) then .ok (.bare (Text.trim raw)) else mismatch
  | _ => mismatch

/-- A truth value as it is written for a boolean field. -/
def booleanLiteral (field : Field) (value : Value) : Except Fault Literal :=
  let mismatch : Except Fault Literal :=
    .error (.invalidArguments (.literalMismatch value.kind value.text field.owner field.name))
  match value with
  | .bool _ => .ok (.bare value.text)
  | .string raw =>
    let word := Text.lowercaseAscii (Text.trim raw)
    if word = "true" ∨ word = "false" then .ok (.bare word) else mismatch
  | _ => mismatch

/-- An instant as it is written in a filter. -/
def dateLiteral (context : Context) (value : Value) (dateOnly : Bool) : Except Fault Literal :=
  match context.dates.read? value with
  | some t => .ok (.bare (context.dates.write t dateOnly))
  | none => .error (.invalidDate value.text)

/-- A value as it is written when no declared type decides. -/
def plainLiteral (context : Context) (value : Value) : Except Fault Literal :=
  match value with
  | .string text => .ok (.quoted text)
  | .instant t => .ok (.bare (context.dates.write t false))
  | .list _ | .record _ => .error (.invalidArguments (.literalKind value.kind))
  | _ => .ok (.bare value.text)

/-- A value as it is written for a key of some type. -/
def keyLiteral (value : Value) : KeyType → Literal
  | .guid | .number => .bare value.text
  | .string => .quoted value.text

/-- A value as it is written against a field. -/
def fieldLiteral (context : Context) (field : Field) (value : Value) : Except Fault Literal :=
  match field.attributeType? with
  | some (.enumeration typeName) =>
    .ok (.enumeration (context.settings.qualify typeName) value.text)
  | some .date => context.dateLiteral value false
  | some .number | some .decimal => numericLiteral field value
  | some .boolean => booleanLiteral field value
  | some .guid => .ok (.bare value.text)
  | some .string => context.plainLiteral value
  | none =>
    match field.keyType? with
    | some type => .ok (keyLiteral value type)
    | none => context.plainLiteral value

/-- A value as it is written in a comparison: against a field, if one is on the other
side, and as an instant in a comparison of dates. -/
def literal (context : Context) (value : Value) (field : Option Field) (timeless : Option Bool) :
    Except Fault Literal :=
  if value.isNull then .ok (.bare "null")
  else
    match timeless, field with
    | some timeless, _ => context.dateLiteral value timeless
    | none, some field => context.fieldLiteral field value
    | none, none => context.plainLiteral value

/-- An operand whose path has been looked up. -/
inductive Resolved where
  /-- A reference, and the field whose type decides how the other side is written. -/
  | field (reference : Reference) (deciding : Field)
  /-- A fixed value. -/
  | literal (value : Value)

/-- The field of a resolved operand that decides. -/
def Resolved.field? : Resolved → Option Field
  | field _ deciding => some deciding
  | literal _ => none

/-- An operand that is fixed and not null. -/
def isSolidLiteral : Operand → Bool
  | .field _ => false
  | .literal value => !value.isNull

/-- Look up the path of an operand. A relationship to one record becomes the key of
that record when the other side is fixed and not null. -/
def resolveOperand (context : Context) (scope : Scope) (other : Operand) :
    Operand → Except Fault Resolved
  | .literal value => .ok (.literal value)
  | .field path => do
    let (reference, field) ← context.reference scope path
    if field.kind = .belongsTo ∧ isSolidLiteral other then
      let key ← context.schema.key field.target
      return .field { reference with names := reference.names ++ [context.remoteName key] } key
    else return .field reference field

/-- Write an operand. -/
def side (context : Context) (timeless : Option Bool) (other : Resolved) :
    Resolved → Except Fault Side
  | .field reference _ => .ok (.reference reference (timeless == some true))
  | .literal value => (context.literal value other.field? timeless).map .literal

/-- The expression of a comparison. Paths are looked up before literals are written. -/
def comparison (context : Context) (scope : Scope) (left : Operand) (op : Comparison)
    (right : Operand) (timeless : Option Bool) : Except Fault Expression := do
  let resolvedLeft ← context.resolveOperand scope right left
  let resolvedRight ← context.resolveOperand scope left right
  let leftSide ← context.side timeless resolvedRight resolvedLeft
  let rightSide ← context.side timeless resolvedLeft resolvedRight
  return .comparison leftSide op rightSide

/-- The expression of a text search. -/
def containsExpression (context : Context) (scope : Scope) (path text : String) :
    Except Fault Expression := do
  let (reference, _) ← context.reference scope path
  let caseless := context.settings.caselessContains
  return .contains reference caseless (if caseless then Text.lowercase text else text)

/-- The expression of a shape test. -/
def shapeExpression (context : Context) (scope : Scope) (kind : ShapeKind) (path : String)
    (test : ShapeTest) : Except Fault Expression := do
  let (reference, _) ← context.reference scope path
  match test with
  | .intersects shape => return .intersects reference kind shape
  | .distance shape op limit => return .distance reference kind shape op limit

/-- The expression of a type assertion. -/
def isOfExpression (context : Context) (scope : Scope) (expression : Option String)
    (typeName : String) : Except Fault Expression := do
  let typeName := context.settings.qualify typeName
  match expression, scope.binder? with
  | none, none => return .isOf .record typeName
  | none, some bound => return .isOf (.item bound) typeName
  | some path, _ =>
    let (reference, _) ← context.reference scope path
    return .isOf (.value reference) typeName

/-- The variable that a quantifier in a scope binds. -/
def boundVariable (context : Context) (scope : Scope) : String :=
  context.settings.lambdaPrefix ++ toString scope.depth

mutual

/-- The expression of a predicate in a scope. -/
def expressionWithin (context : Context) : Predicate → Scope → Except Fault Expression
  | .compare left op right, scope => context.comparison scope left op right none
  | .compareDates left op right timeless, scope =>
    context.comparison scope left op right (some timeless)
  | .contains path text, scope => context.containsExpression scope path text
  | .shape kind path test, scope => context.shapeExpression scope kind path test
  | .isOf expression typeName, scope => context.isOfExpression scope expression typeName
  | .not body, scope => return .not (← expressionWithin context body scope)
  | .group connective members, scope =>
    return .group connective (← membersWithin context members scope)
  | .quantified path quantifier body, scope => do
    let collection ← context.schema.resolveCollection scope.entityType path
    let (reference, _) ← context.reference scope path
    let bound := context.boundVariable scope
    let inner := ⟨collection.target, some bound, scope.depth + 1⟩
    return .quantified reference quantifier bound (← expressionWithin context body inner)
  | .const verdict, _ => .ok (.const verdict)
termination_by structural predicate => predicate

/-- The expressions of the members of a group in order. -/
def membersWithin (context : Context) : List Predicate → Scope → Except Fault (List Expression)
  | [], _ => .ok []
  | member :: members, scope => do
    let expression ← expressionWithin context member scope
    return expression :: (← membersWithin context members scope)
termination_by structural members => members

end

/-- The expression of a predicate on the records of a type. -/
def expression (context : Context) (entityType : String) (predicate : Predicate) :
    Except Fault Expression :=
  context.expressionWithin predicate (.root entityType)

/-- The filter text of a predicate on the records of a type. -/
def filterText (context : Context) (entityType : String) (predicate : Predicate) :
    Except Fault String :=
  (context.expression entityType predicate).map Expression.text

/-- The text of one sort key. -/
def keyText (context : Context) (entityType : String) (key : SortKey) : Except Fault String := do
  let (reference, _) ← context.reference (.root entityType) key.path
  match key.direction with
  | some direction => return reference.text ++ " " ++ direction.word
  | none => return reference.text

/-- The order text of a clause on the records of a type. -/
def orderText (context : Context) (entityType : String) (clause : OrderClause) :
    Except Fault String :=
  (clause.keys.mapM (context.keyText entityType)).map (String.intercalate ",")

end Context

end EntityQuery.Remote
