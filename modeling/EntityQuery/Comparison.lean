import EntityQuery.Fault
import EntityQuery.Text.Blank

/-!
# Comparison operators

Six operators say which orderings of two values they accept. Each has one name, used
in documents and plans, and several spellings that are accepted in queries. The names
with a letter q at the end include equality; those without it do not.
-/

namespace EntityQuery

/-- A comparison operator. -/
inductive Comparison where
  /-- Equal. -/
  | eq
  /-- Not equal. -/
  | neq
  /-- Strictly greater. -/
  | gt
  /-- Greater or equal. -/
  | geq
  /-- Strictly less. -/
  | lt
  /-- Less or equal. -/
  | leq
  deriving Repr, DecidableEq

namespace Comparison

/-- The operator accepts an ordering of its left side against its right side. -/
def accepts : Comparison → Ordering → Bool
  | eq, o => o == .eq
  | neq, o => o != .eq
  | gt, o => o == .gt
  | geq, o => o != .lt
  | lt, o => o == .lt
  | leq, o => o != .gt

/-- The name of an operator. -/
def name : Comparison → String
  | eq => "eq"
  | neq => "neq"
  | gt => "ge"
  | geq => "geq"
  | lt => "le"
  | leq => "leq"

/-- Names and their operators. -/
def byName : List (String × Comparison) :=
  [("eq", eq), ("neq", neq), ("ge", gt), ("geq", geq), ("le", lt), ("leq", leq)]

/-- Accepted spellings besides the names. -/
def bySymbol : List (String × Comparison) :=
  [("==", eq), ("=", eq), ("!=", neq), ("<>", neq), (">", gt), (">=", geq), ("<", lt), ("<=", leq)]

/-- Read an operator, blanks around it allowed. -/
def parse (text : String) : Except Fault Comparison :=
  let spelling := Text.trim text
  match (byName ++ bySymbol).lookup spelling with
  | some op => .ok op
  | none => .error (.invalidArguments (.unknownOperator spelling))

/-- The operator that says the same with its sides exchanged. -/
def converse : Comparison → Comparison
  | eq => eq
  | neq => neq
  | gt => lt
  | geq => leq
  | lt => gt
  | leq => geq

/-- Exchanging the sides exchanges the ordering. -/
theorem accepts_converse (op : Comparison) (o : Ordering) :
    op.converse.accepts o.swap = op.accepts o := by
  cases op <;> cases o <;> rfl

end Comparison

end EntityQuery
