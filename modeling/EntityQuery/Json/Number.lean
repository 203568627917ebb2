import EntityQuery.Json.Basic
import EntityQuery.Decimal.Numeral
import EntityQuery.Decimal.Binary64

/-!
# Numbers in JSON

A number without point and exponent is whole if it fits 64 bits, with or without a
sign; minus zero is a floating-point number. Every other number is read as a whole
significand of at most 64 bits and a power of ten: digits that no longer fit are
dropped and only move the power. The significand is then multiplied or divided by
the power in one floating-point step, and a result beyond every finite number is
refused.
-/

namespace EntityQuery.Json

/-- Digits that were kept as one number, and the power of ten that goes with them. -/
structure Significand where
  /-- The digits that fit. -/
  kept : Nat
  /-- The power of ten of the last kept digit. -/
  power : Int
  /-- A digit has been dropped. -/
  full : Bool
  deriving Repr

/-- The room for a significand. -/
def significandLimit : Nat := 18446744073709551616

/-- Take a digit before the point. -/
def Significand.pushWhole (s : Significand) (c : Char) : Significand :=
  let next := 10 * s.kept + Decimal.digitValue c
  if s.full || significandLimit ≤ next then ⟨s.kept, s.power + 1, true⟩
  else ⟨next, s.power, false⟩

/-- Take a digit after the point. -/
def Significand.pushFraction (s : Significand) (c : Char) : Significand :=
  let next := 10 * s.kept + Decimal.digitValue c
  if s.full || significandLimit ≤ next then { s with full := true }
  else ⟨next, s.power - 1, false⟩

/-- The double nearest to a power of ten. -/
def powerOfTen (n : Nat) : Float := Float.ofScientific 1 false n

/-- Divide by a power of ten, in steps that are doubles themselves. -/
def divideByPower (x : Float) (n : Nat) : Float :=
  if n ≤ 308 then x / powerOfTen n
  else if x == 0 then x
  else divideByPower (x / powerOfTen 308) (n - 308)
termination_by n

/-- The floating-point number of a significand and a power of ten. -/
def Significand.toFloat? (kept : Nat) (power : Int) : Option Float :=
  let x := Float.ofNat kept
  if power < 0 then some (divideByPower x (-power).toNat)
  else if power ≤ 308 then
    let y := x * powerOfTen power.toNat
    if Decimal.isFiniteFloat y then some y else none
  else if kept = 0 then some x
  else none

/-- Give a floating-point number its sign. -/
def signed (negative : Bool) (x : Float) : Float := if negative then -x else x

/-- The document of a number read apart: sign, digits before the point, digits after
it, and the digits of the exponent with its sign. -/
def numberOf? (negative : Bool) (whole : List Char) (fraction : Option (List Char))
    (exponent : Option (Bool × List Char)) : Option Json :=
  let s := whole.foldl Significand.pushWhole ⟨0, 0, false⟩
  match fraction, exponent, s.full with
  | none, none, false =>
    if negative then
      if s.kept = 0 ∨ 9223372036854775808 < s.kept then some (.float (-(Float.ofNat s.kept)))
      else some (.int (-(s.kept : Int)))
    else some (.int s.kept)
  | _, _, _ =>
    let s := (fraction.getD []).foldl Significand.pushFraction { s with full := false }
    let power :=
      match exponent with
      | none => s.power
      | some (below, digits) =>
        if below then s.power - (Decimal.spelled digits : Int)
        else s.power + (Decimal.spelled digits : Int)
    (Significand.toFloat? s.kept power).map fun x => .float (signed negative x)

end EntityQuery.Json
