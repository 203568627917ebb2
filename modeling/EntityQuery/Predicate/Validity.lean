import EntityQuery.Dates
import EntityQuery.Predicate.Basic
import EntityQuery.Text.Pieces
import EntityQuery.Value.Json

/-!
# Valid predicates

A predicate that was not put together by the constructors is checked before use:
paths have no blank segment, groups have two members, type names are not blank, and
fixed operands of date comparisons are null or instants. The first fault, from left
to right, is reported.
-/

namespace EntityQuery.Predicate

/-- A path without blank segments. -/
def checkPath (path : String) : Except Fault Unit :=
  if path.isEmpty || (Text.pieces '.' path).any Text.isBlankText then .error (.emptyPath path)
  else .ok ()

/-- The path of an operand is well formed. -/
def checkOperand : Operand → Except Fault Unit
  | .field path => checkPath path
  | .literal _ => .ok ()

/-- A fixed operand of a date comparison is null or an instant. -/
def checkDateOperand : Operand → Except Fault Unit
  | .field _ | .literal .null => .ok ()
  | .literal value =>
    match DateStyle.standard.read? value with
    | some _ => .ok ()
    | none => .error (.invalidDate value.text)

/-- A date comparison whose fixed operands are null or instants. -/
def date (left : Operand) (op : Comparison) (right : Operand) (timeless : Bool) :
    Except Fault Predicate := do
  checkDateOperand left
  checkDateOperand right
  return compareDates left op right timeless

mutual

/-- Check a predicate. -/
def validate : Predicate → Except Fault Unit
  | compare left _ right => do
    checkOperand left
    checkOperand right
  | compareDates left _ right _ => do
    checkOperand left
    checkOperand right
    checkDateOperand left
    checkDateOperand right
  | group _ members => do
    if members.length < 2 then throw (.tooFewPredicates members.length)
    validateMembers members
  | contains path _ | shape _ path _ => checkPath path
  | quantified path _ body => do
    checkPath path
    validate body
  | not body => validate body
  | isOf expression typeName =>
    if Text.isBlankText typeName then .error (.invalidArguments .blankTypeName)
    else
      match expression with
      | some path => checkPath path
      | none => .ok ()
  | const _ => .ok ()
termination_by structural predicate => predicate

/-- Check the members of a group in order. -/
def validateMembers : List Predicate → Except Fault Unit
  | [] => .ok ()
  | member :: members => do
    validate member
    validateMembers members
termination_by structural members => members

end

end EntityQuery.Predicate
