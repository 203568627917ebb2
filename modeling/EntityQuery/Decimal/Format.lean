import EntityQuery.Decimal.Shortest

/-!
# How numbers are written

Two ways of writing a double are in use. Texts meant for a query never use an
exponent and drop an empty fraction. Documents keep a fraction or an exponent, so
that a number written from a double reads back as a double.
-/

namespace EntityQuery.Decimal

/-- The decisions of one way of writing doubles. -/
structure FloatFormat where
  /-- Which of two equally near decimals is written. -/
  tie : Tie
  /-- Powers of ten of the first digit that are written without an exponent; no bounds
  means all. -/
  positional : Option (Int × Int)
  /-- Whether a whole number keeps one zero after the point. -/
  keepsPoint : Bool
  /-- The text for what is not a number. -/
  nan : String
  /-- The text for a number beyond every finite one. -/
  infinite : String
  /-- The text for a number below every finite one. -/
  negativeInfinite : String

/-- Texts for queries: no exponent, no empty fraction, ties go up. -/
def FloatFormat.plain : FloatFormat :=
  { tie := .up, positional := none, keepsPoint := false, nan := "NaN", infinite := "inf",
    negativeInfinite := "-inf" }

/-- Documents: an exponent from sixteen digits before the point and from five zeros
after it, at least one place otherwise, ties go to the even digit. Documents have no
text for what is no finite number, so it is written as null. -/
def FloatFormat.document : FloatFormat :=
  { tie := .toEven, positional := some (-5, 15), keepsPoint := true, nan := "null",
    infinite := "null", negativeInfinite := "null" }

/-- The digits of a natural number. -/
def digitsOf (n : Nat) : List Char := Nat.toDigits 10 n

/-- So many zeros. -/
def zeros (n : Nat) : List Char := List.replicate n '0'

/-- Digits with the point at its place. -/
def positionalText (keepsPoint : Bool) (digits : List Char) (exponent : Int) : List Char :=
  let ending := if keepsPoint then ['.', '0'] else []
  if 0 ≤ exponent then digits ++ zeros exponent.toNat ++ ending
  else
    let places := (-exponent).toNat
    if places < digits.length then
      digits.take (digits.length - places) ++ '.' :: digits.drop (digits.length - places)
    else '0' :: '.' :: zeros (places - digits.length) ++ digits

/-- One digit before the point and a signed power of ten behind. -/
def exponentText (digits : List Char) (leading : Int) : List Char :=
  let fraction := if digits.length ≤ 1 then [] else '.' :: digits.drop 1
  let sign := if leading < 0 then '-' else '+'
  digits.take 1 ++ fraction ++ 'e' :: sign :: digitsOf leading.natAbs

/-- A positive decimal in a given format. -/
def FloatFormat.decimalText (format : FloatFormat) (decimal : Expansion) : List Char :=
  let digits := digitsOf decimal.digits
  let leading := decimal.exponent + (digits.length - 1 : Int)
  match format.positional with
  | none => positionalText format.keepsPoint digits decimal.exponent
  | some (least, greatest) =>
    if least ≤ leading ∧ leading ≤ greatest then
      positionalText format.keepsPoint digits decimal.exponent
    else exponentText digits leading

/-- The text of a double. -/
def FloatFormat.text (format : FloatFormat) (x : Float) : String :=
  match binary64 x with
  | .nan => format.nan
  | .infinite negative => if negative then format.negativeInfinite else format.infinite
  | .finite negative mantissa exponent =>
    let sign := if negative then "-" else ""
    if mantissa = 0 then sign ++ String.ofList (positionalText format.keepsPoint ['0'] 0)
    else sign ++ String.ofList (format.decimalText (shortest format.tie mantissa exponent))

end EntityQuery.Decimal
