import EntityQuery.Decimal.Binary64

/-!
# The shortest decimal that reads back

Every double owns the interval of quantities that round to it. Among the decimals
in that interval the one with the fewest digits is chosen, and among those the one
nearest to the double. All comparisons are between natural numbers.
-/

namespace EntityQuery.Decimal

/-- What to do with a quantity exactly between two neighbours. -/
inductive Tie where
  /-- Take the neighbour with an even last digit. -/
  | toEven
  /-- Take the larger neighbour. -/
  | up
  deriving Repr, DecidableEq

/-- The quantity `digits * 10 ^ exponent`. -/
structure Expansion where
  /-- All digits as one number. -/
  digits : Nat
  /-- The power of ten of the last digit. -/
  exponent : Int
  deriving Repr, DecidableEq

/-- A double and the ends of its interval as fractions of one denominator, in units
of a decimal grid. -/
structure Cell where
  /-- The double. -/
  value : Nat
  /-- The lower end. -/
  low : Nat
  /-- The upper end. -/
  high : Nat
  /-- The common denominator. -/
  unit : Nat
  /-- Whether the ends themselves round to the double. -/
  closed : Bool

/-- The interval of the double `mantissa * 2 ^ exponent` in units of `10 ^ grid`.
Below a power of two the spacing halves, so the lower end is nearer there. -/
def Cell.of (mantissa : Nat) (exponent grid : Int) : Cell :=
  let binary := exponent - 2
  let scale := Nat.pow 2 binary.toNat * Nat.pow 10 (-grid).toNat
  let gap := if mantissa = fractionUnit ∧ exponent ≠ -1074 then 1 else 2
  { value := 4 * mantissa * scale
    low := (4 * mantissa - gap) * scale
    high := (4 * mantissa + 2) * scale
    unit := Nat.pow 2 (-binary).toNat * Nat.pow 10 grid.toNat
    closed := mantissa % 2 = 0 }

/-- A grid point rounds to the double. -/
def Cell.holds (cell : Cell) (point : Nat) : Bool :=
  let place := point * cell.unit
  if cell.closed then cell.low ≤ place && place ≤ cell.high
  else cell.low < place && place < cell.high

/-- The grid point in the interval that lies nearest to the double, if there is one.
Only the two neighbours of the double need to be tried. -/
def Cell.nearest? (tie : Tie) (cell : Cell) : Option Nat :=
  let below := cell.value / cell.unit
  let above := below + 1
  match cell.holds below, cell.holds above with
  | false, false => none
  | true, false => some below
  | false, true => some above
  | true, true =>
    let toBelow := cell.value - below * cell.unit
    let toAbove := above * cell.unit - cell.value
    if toBelow < toAbove then some below
    else if toAbove < toBelow then some above
    else
      match tie with
      | .up => some above
      | .toEven => some (if below % 2 = 0 then below else above)

/-- Try ever finer grids; the first that has a point in the interval wins. -/
def shortestFrom (tie : Tie) (mantissa : Nat) (exponent : Int) : Nat → Int → Expansion
  | 0, grid =>
    ⟨(Cell.of mantissa exponent grid).value / (Cell.of mantissa exponent grid).unit, grid⟩
  | steps + 1, grid =>
    match (Cell.of mantissa exponent grid).nearest? tie with
    | some digits => ⟨digits, grid⟩
    | none => shortestFrom tie mantissa exponent steps (grid - 1)

/-- The shortest decimal of a positive double. The first grid is coarser than the
double, and seventeen digits always suffice. -/
def shortest (tie : Tie) (mantissa : Nat) (exponent : Int) : Expansion :=
  let grid := ((mantissa.log2 : Int) + exponent) * 30103 / 100000 + 2
  shortestFrom tie mantissa exponent 21 grid

end EntityQuery.Decimal
