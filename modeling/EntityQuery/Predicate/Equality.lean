import EntityQuery.Predicate.Basic

/-!
# Equal predicates

Two predicates are equal when they have the same parts in the same order and their
fixed values are equal as values.
-/

namespace EntityQuery

/-- Equality of operands. -/
def Operand.equal : Operand → Operand → Bool
  | field path, field other => path == other
  | literal value, literal other => value.equal other
  | _, _ => false

/-- Equality of shape tests. -/
def ShapeTest.equal : ShapeTest → ShapeTest → Bool
  | intersects shape, intersects other => shape == other
  | distance shape op limit, distance otherShape otherOp otherLimit =>
    shape == otherShape && op == otherOp &&
      Decimal.compareFloats limit otherLimit == some .eq
  | _, _ => false

namespace Predicate

mutual

/-- Equality of predicates. -/
def equal : Predicate → Predicate → Bool
  | compare left op right, compare otherLeft otherOp otherRight =>
    left.equal otherLeft && op == otherOp && right.equal otherRight
  | compareDates left op right timeless, compareDates otherLeft otherOp otherRight otherTimeless =>
    left.equal otherLeft && op == otherOp && right.equal otherRight && timeless == otherTimeless
  | group connective members, group otherConnective otherMembers =>
    connective == otherConnective && equalMembers members otherMembers
  | contains path text, contains otherPath otherText => path == otherPath && text == otherText
  | shape kind path test, shape otherKind otherPath otherTest =>
    kind == otherKind && path == otherPath && test.equal otherTest
  | quantified path quantifier body, quantified otherPath otherQuantifier otherBody =>
    path == otherPath && quantifier == otherQuantifier && equal body otherBody
  | not body, not otherBody => equal body otherBody
  | isOf expression typeName, isOf otherExpression otherTypeName =>
    expression == otherExpression && typeName == otherTypeName
  | const verdict, const otherVerdict => verdict == otherVerdict
  | _, _ => false
termination_by structural predicate => predicate

/-- Equality of the members of groups. -/
def equalMembers : List Predicate → List Predicate → Bool
  | [], [] => true
  | member :: members, other :: others => equal member other && equalMembers members others
  | _, _ => false
termination_by structural members => members

end

end Predicate

end EntityQuery
