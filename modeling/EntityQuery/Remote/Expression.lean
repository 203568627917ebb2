import EntityQuery.Predicate.Json
import EntityQuery.Text.Quoted

/-!
# Filter expressions of remote requests

A filter expression is a predicate in the words of the remote service: paths are
chains of remote names, literals are spelled by declared types, and the body of a
quantifier names its items by a variable. Its text puts a group into parentheses
except at the outermost level, under a negation and in the body of a quantifier,
which have parentheses of their own.
-/

namespace EntityQuery.Remote

/-- A chain of remote names, beginning at a variable or at the queried records. -/
structure Reference where
  /-- The variable that the chain begins with. -/
  binder? : Option String
  /-- The names along the chain. -/
  names : List String
  deriving Repr, DecidableEq

/-- The text of a reference. -/
def Reference.text (reference : Reference) : String :=
  let path := String.intercalate "/" reference.names
  match reference.binder? with
  | some bound => bound ++ "/" ++ path
  | none => path

/-- A literal of a filter. -/
inductive Literal where
  /-- A text that stands for itself. -/
  | bare (text : String)
  /-- A text between quotes. -/
  | quoted (text : String)
  /-- A value of an enumeration. -/
  | enumeration (typeName text : String)
  deriving Repr, DecidableEq

/-- The text of a literal. -/
def Literal.text : Literal → String
  | bare text => text
  | quoted text => Text.quote text
  | enumeration typeName text => typeName ++ Text.quote text

/-- One side of a comparison. -/
inductive Side where
  /-- A reference, or its calendar date when `dateOnly`. -/
  | reference (reference : Reference) (dateOnly : Bool)
  /-- A literal. -/
  | literal (literal : Literal)
  deriving Repr, DecidableEq

/-- The text of a side. -/
def Side.text : Side → String
  | reference field dateOnly => if dateOnly then "date(" ++ field.text ++ ")" else field.text
  | literal content => content.text

/-- The word of the remote service for an operator. -/
def operatorWord : Comparison → String
  | .eq => "eq"
  | .neq => "ne"
  | .gt => "gt"
  | .geq => "ge"
  | .lt => "lt"
  | .leq => "le"

/-- What a type assertion is about. -/
inductive Subject where
  /-- The queried record. -/
  | record
  /-- The item that a variable names. -/
  | item (bound : String)
  /-- The value of a reference. -/
  | value (reference : Reference)
  deriving Repr, DecidableEq

/-- A filter in the words of the remote service. -/
inductive Expression where
  /-- Two sides compare. -/
  | comparison (left : Side) (op : Comparison) (right : Side)
  /-- A text contains another; in small letters when `caseless`. -/
  | contains (reference : Reference) (caseless : Bool) (text : String)
  /-- A shape meets another. -/
  | intersects (reference : Reference) (kind : ShapeKind) (shape : String)
  /-- The distance of two shapes compares with a limit. -/
  | distance (reference : Reference) (kind : ShapeKind) (shape : String) (op : Comparison)
      (limit : Float)
  /-- Something is of a type. -/
  | isOf (subject : Subject) (typeName : String)
  /-- Expressions joined by a connective. -/
  | group (connective : Connective) (members : List Expression)
  /-- An expression does not hold. -/
  | not (body : Expression)
  /-- The items of a collection, named by a variable, satisfy an expression. -/
  | quantified (reference : Reference) (quantifier : Quantifier) (bound : String)
      (body : Expression)
  /-- Always or never. -/
  | const (verdict : Bool)
  deriving Inhabited

/-- The first argument of a text search: a reference, or a call that puts it into small
letters. -/
def searchSubject (reference : Reference) (caseless : Bool) : String :=
  if caseless then "tolower(" ++ reference.text ++ ")" else reference.text

namespace Expression

/-- The text of a shape; it is passed on as it is. -/
def shapeText (kind : ShapeKind) (shape : String) : String :=
  kind.name ++ "'" ++ shape ++ "'"

/-- The text of the subject of a type assertion, with the comma behind it. -/
def subjectText : Subject → String
  | .record => ""
  | .item bound => bound ++ ","
  | .value reference => reference.text ++ ","

mutual

/-- The text of an expression, which may stand inside a group. -/
def textWithin (nested : Bool) : Expression → String
  | comparison left op right => left.text ++ " " ++ operatorWord op ++ " " ++ right.text
  | contains reference caseless text =>
    "contains(" ++ searchSubject reference caseless ++ "," ++ Text.quote text ++ ")"
  | intersects reference kind shape =>
    "geo.intersects(" ++ reference.text ++ "," ++ shapeText kind shape ++ ")"
  | distance reference kind shape op limit =>
    "geo.distance(" ++ reference.text ++ "," ++ shapeText kind shape ++ ") " ++
      operatorWord op ++ " " ++ Decimal.FloatFormat.plain.text limit
  | isOf subject typeName => "isof(" ++ subjectText subject ++ Text.quote typeName ++ ")"
  | group connective members =>
    let joined := String.intercalate (" " ++ connective.name ++ " ") (memberTexts members)
    if nested then "(" ++ joined ++ ")" else joined
  | not body => "not (" ++ textWithin false body ++ ")"
  | quantified reference quantifier bound body =>
    reference.text ++ "/" ++ quantifier.name ++ "(" ++ bound ++ ":" ++ textWithin false body ++ ")"
  | const verdict => if verdict then "true" else "false"
termination_by structural expression => expression

/-- The texts of the members of a group. -/
def memberTexts : List Expression → List String
  | [] => []
  | member :: members => textWithin true member :: memberTexts members
termination_by structural members => members

end

/-- The text of a whole filter. -/
def text (expression : Expression) : String := textWithin false expression

end Expression

end EntityQuery.Remote
