/-!
# Decimal numerals in texts

A numeral is an optional sign, digits with an optional point somewhere among them,
and an optional power of ten. It is finite when it rounds to a finite double.
-/

namespace EntityQuery.Decimal

/-- The quantity that a numeral denotes, up to its sign. -/
structure Numeral where
  /-- All digits as one number. -/
  digits : Nat
  /-- The power of ten of the last digit. -/
  exponent : Int
  deriving Repr, DecidableEq

/-- The value of a digit. -/
def digitValue (c : Char) : Nat := c.toNat - 48

/-- The number that a list of digits spells. -/
def spelled (digits : List Char) : Nat :=
  digits.foldl (fun n c => 10 * n + digitValue c) 0

/-- Drop one leading sign. -/
def dropSign : List Char → List Char
  | '+' :: cs => cs
  | '-' :: cs => cs
  | cs => cs

/-- Read the power of ten that ends a numeral. -/
def readExponent? : List Char → Option Int
  | [] => some 0
  | c :: cs =>
    if c = 'e' ∨ c = 'E' then
      let digits := dropSign cs
      if digits.isEmpty || !digits.all Char.isDigit then none
      else if cs.head? = some '-' then some (-(spelled digits : Int))
      else some (spelled digits)
    else none

/-- Read a whole text as a numeral. At least one digit stands before or after the point. -/
def Numeral.read? (text : List Char) : Option Numeral :=
  let unsigned := dropSign text
  let whole := unsigned.takeWhile Char.isDigit
  let rest := unsigned.dropWhile Char.isDigit
  let fraction := if rest.head? = some '.' then (rest.drop 1).takeWhile Char.isDigit else []
  let ending := if rest.head? = some '.' then (rest.drop 1).dropWhile Char.isDigit else rest
  if whole.isEmpty && fraction.isEmpty then none
  else (readExponent? ending).map fun power =>
    { digits := spelled (whole ++ fraction), exponent := power - fraction.length }

/-- The least quantity that rounds beyond every finite double: half a step above the
largest one. -/
def overflowBound : Nat := Nat.pow 2 1024 - Nat.pow 2 970

/-- A numeral rounds to a finite double. Its size in digits settles all but the
borderline without computing the quantity. -/
def Numeral.isFinite (numeral : Numeral) : Bool :=
  if numeral.digits = 0 then true
  else
    let size := (Nat.toDigits 10 numeral.digits).length + numeral.exponent
    if size ≤ 308 then true
    else if 309 < size then false
    else
      numeral.digits * Nat.pow 10 numeral.exponent.toNat <
        overflowBound * Nat.pow 10 (-numeral.exponent).toNat

/-- The double nearest to a finite numeral; far below the least double it is zero. -/
def Numeral.toFloat (numeral : Numeral) : Float :=
  if (Nat.toDigits 10 numeral.digits).length + numeral.exponent < -400 then 0
  else Float.ofScientific numeral.digits (numeral.exponent < 0) numeral.exponent.natAbs

/-- A text spells a finite number. -/
def isFiniteNumber (text : String) : Bool :=
  match Numeral.read? text.toList with
  | some numeral => numeral.isFinite
  | none => false

end EntityQuery.Decimal
