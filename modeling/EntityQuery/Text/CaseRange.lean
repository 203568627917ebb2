/-!
# Ranges of a case mapping

The case mappings of Unicode are long but regular: most letters lie in ranges that
are moved as a whole, or in ranges in which upper and lower case alternate. A
mapping is written as a list of such ranges in ascending order.
-/

namespace EntityQuery.Text

/-- The code points `first`, `first + step`, … up to `last` are sent to `image`,
`image + step`, …. -/
structure CaseRange where
  /-- The first code point that the range changes. -/
  first : Nat
  /-- The last code point that the range changes. -/
  last : Nat
  /-- The distance between two neighbours of the range. -/
  step : Nat
  /-- The image of `first`. -/
  image : Nat
  deriving Repr

/-- The code points that a range changes. -/
def CaseRange.covers (range : CaseRange) (n : Nat) : Bool :=
  range.first ≤ n && n ≤ range.last && (n - range.first) % range.step == 0

/-- Look a character up in ascending ranges; one in no range stays as it is. -/
def mapCase : List CaseRange → Char → Char
  | [], c => c
  | range :: rest, c =>
    if c.toNat < range.first then c
    else if range.covers c.toNat then Char.ofNat (range.image + (c.toNat - range.first))
    else mapCase rest c

/-- Ascending runs of code points that share a property. -/
def inRuns : List (Nat × Nat) → Nat → Bool
  | [], _ => false
  | (first, last) :: rest, n =>
    if n < first then false else if n ≤ last then true else inRuns rest n

end EntityQuery.Text
