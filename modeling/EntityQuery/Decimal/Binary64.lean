/-!
# Double-precision numbers as exact quantities

A finite double is an integer times a power of two. Reading it that way from its
bits makes comparison, rounding and printing questions about integers. The rank
of a number is its place in the order of all numbers; a number that is not a
number has none, and both zeros share one rank.
-/

namespace EntityQuery.Decimal

/-- What the bits of a double say. -/
inductive Binary64 where
  /-- Not a number. -/
  | nan
  /-- Beyond every finite number. -/
  | infinite (negative : Bool)
  /-- The quantity `mantissa * 2 ^ exponent`, negated when `negative`. -/
  | finite (negative : Bool) (mantissa : Nat) (exponent : Int)
  deriving Repr, DecidableEq

/-- Two to the number of bits of the fraction field. -/
def fractionUnit : Nat := 0x10000000000000

/-- Two to the number of bits of the exponent field. -/
def exponentUnit : Nat := 0x800

/-- The worth of the sign bit. -/
def signUnit : Nat := 0x8000000000000000

/-- Bits of the fraction field. -/
def fractionBits (x : Float) : Nat := x.toBits.toNat % fractionUnit

/-- Bits of the exponent field. -/
def exponentBits (x : Float) : Nat := x.toBits.toNat / fractionUnit % exponentUnit

/-- The sign bit. -/
def signBit (x : Float) : Bool := x.toBits.toNat / signUnit == 1

/-- Read a double from its sign, exponent and fraction fields. -/
def binary64 (x : Float) : Binary64 :=
  if exponentBits x = 2047 then
    if fractionBits x = 0 then .infinite (signBit x) else .nan
  else if exponentBits x = 0 then .finite (signBit x) (fractionBits x) (-1074)
  else .finite (signBit x) (fractionUnit + fractionBits x) ((exponentBits x : Int) - 1075)

/-- The place of a number among all numbers. -/
def rank (x : Float) : Option Int :=
  if exponentBits x = 2047 ∧ fractionBits x ≠ 0 then none
  else
    let magnitude : Int := (x.toBits.toNat % signUnit : Nat)
    some (if signBit x then -magnitude else magnitude)

/-- Numbers compare by their ranks; nothing compares with what is not a number. -/
def compareFloats (x y : Float) : Option Ordering :=
  match rank x, rank y with
  | some i, some j => some (compare i j)
  | _, _ => none

/-- A number that is neither infinite nor undefined. -/
def isFiniteFloat (x : Float) : Bool := exponentBits x != 2047

/-- Swapping two numbers swaps the answer. -/
theorem compareFloats_swap (x y : Float) :
    compareFloats y x = (compareFloats x y).map Ordering.swap := by
  unfold compareFloats
  cases rank x with
  | none => cases rank y <;> rfl
  | some i =>
    cases rank y with
    | none => rfl
    | some j => exact congrArg some Std.OrientedOrd.eq_swap

end EntityQuery.Decimal
