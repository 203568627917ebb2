import EntityQuery.Value.Basic

/-!
# Comparing and sorting values

Two scalars of one kind compare as expected; whole numbers compare with doubles after
rounding to the nearest double, texts compare by code points, and instants by moment.
Everything else does not compare. For sorting, values that do not compare are placed
by their kinds, with null first, and tie within one kind.
-/

namespace EntityQuery.Value

/-- The double nearest to a whole number. -/
def floatOfInt (n : Int64) : Float := Float.ofInt n.toInt

/-- Compare two values, if they can be compared. -/
def compare? : Value → Value → Option Ordering
  | null, null => some .eq
  | bool a, bool b => some (compare a b)
  | int a, int b => some (compare a.toInt b.toInt)
  | int a, float y => Decimal.compareFloats (floatOfInt a) y
  | float x, int b => Decimal.compareFloats x (floatOfInt b)
  | float x, float y => Decimal.compareFloats x y
  | string a, string b => some (compare a b)
  | instant s, instant t => some (compare s.nanos t.nanos)
  | _, _ => none

/-- The place of a kind among the kinds; both kinds of numbers share one. -/
def kindRank : Value → Nat
  | null => 0
  | bool _ => 1
  | int _ | float _ => 2
  | string _ => 3
  | instant _ => 4
  | list _ => 5
  | record _ => 6

/-- The order used for sorting. -/
def sortCompare (a b : Value) : Ordering :=
  (a.compare? b).getD (compare a.kindRank b.kindRank)

/-- Swapping two values swaps the answer. -/
theorem compare?_swap (a b : Value) : b.compare? a = (a.compare? b).map Ordering.swap := by
  cases a with
  | null => cases b <;> rfl
  | bool x => cases b with
    | bool y => exact congrArg some Std.OrientedOrd.eq_swap
    | _ => rfl
  | int x => cases b with
    | int y => exact congrArg some Std.OrientedOrd.eq_swap
    | float y => exact Decimal.compareFloats_swap _ _
    | _ => rfl
  | float x => cases b with
    | int y => exact Decimal.compareFloats_swap _ _
    | float y => exact Decimal.compareFloats_swap _ _
    | _ => rfl
  | string x => cases b with
    | string y => exact congrArg some Std.OrientedOrd.eq_swap
    | _ => rfl
  | instant s => cases b with
    | instant t => exact congrArg some Std.OrientedOrd.eq_swap
    | _ => rfl
  | list x => cases b <;> rfl
  | record x => cases b <;> rfl

/-- Swapping two values swaps their places. -/
theorem sortCompare_swap (a b : Value) : b.sortCompare a = (a.sortCompare b).swap := by
  unfold sortCompare
  rw [compare?_swap a b]
  cases a.compare? b with
  | none => exact Std.OrientedOrd.eq_swap
  | some o => rfl

/-- Only values of one rank compare. -/
theorem kindRank_eq_of_compare? {a b : Value} {o : Ordering} (h : a.compare? b = some o) :
    a.kindRank = b.kindRank := by
  cases a <;> cases b <;> simp_all [compare?, kindRank]

end EntityQuery.Value
