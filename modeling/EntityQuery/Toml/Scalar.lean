import EntityQuery.Instant.Calendar
import EntityQuery.Json.Reader

/-!
# Numbers and dates in TOML

Numbers may have underscores between digits. Whole numbers have 64 bits with sign and
may be written in four bases. A number above every double is refused, one below every
double is minus infinity. Dates and times come in four forms. A date has no
counterpart among documents and is kept as an object of its own.
-/

namespace EntityQuery.Toml

/-- The characters of a number, a date or a word, up to a separator. -/
def isScalarChar (c : Char) : Bool :=
  c.isAlphanum || c == '+' || c == '-' || c == '_' || c == '.' || c == ':'

/-- Every underscore stands between two digits of a base. -/
def underscoresBetween (isDigit : Char → Bool) : List Char → Bool
  | a :: '_' :: b :: cs => isDigit a && isDigit b && underscoresBetween isDigit (b :: cs)
  | '_' :: _ => false
  | _ :: cs => cs.head? != some '_' && underscoresBetween isDigit cs
  | [] => true

/-- The digits of a numeral without its underscores, if they stand where they may. -/
def digitsOf? (isDigit : Char → Bool) (cs : List Char) : Option (List Char) :=
  let digits := cs.filter (· ≠ '_')
  if underscoresBetween isDigit cs && !digits.isEmpty && digits.all isDigit then some digits
  else none

/-- A whole number of 64 bits with sign. -/
def wholeOf? (n : Int) : Option Json :=
  if Json.fitsInt64 n then some (.int n) else none

/-- The number that digits of a base spell. -/
def spelledIn (base : Nat) (digits : List Char) : Int :=
  ((digits.filterMap Json.hexValue?).foldl (fun n digit => base * n + digit) 0 : Nat)

/-- A whole number without sign in another base. -/
def basedOf? (base : Nat) (cs : List Char) : Option Json := do
  let isDigit := fun c => (Json.hexValue? c).any (· < base)
  wholeOf? (spelledIn base (← digitsOf? isDigit cs))

/-- A whole number in base ten, without needless zeros in front. -/
def decimalOf? (cs : List Char) : Option Json := do
  let digits ← digitsOf? Char.isDigit (Decimal.dropSign cs)
  if digits.head? = some '0' ∧ 1 < digits.length then none
  let n := spelledIn 10 digits
  wholeOf? (if cs.head? = some '-' then -n else n)

/-- A number with a point or an exponent. -/
def floatOf? (cs : List Char) : Option Json := do
  let unsigned := Decimal.dropSign cs
  let whole := unsigned.takeWhile fun c => c.isDigit || c == '_'
  let rest := unsigned.drop whole.length
  let digits ← digitsOf? Char.isDigit whole
  if digits.head? = some '0' ∧ 1 < digits.length then none
  let fraction := if rest.head? = some '.' then
    (rest.drop 1).takeWhile fun c => c.isDigit || c == '_' else []
  let ending := if rest.head? = some '.' then rest.drop (fraction.length + 1) else rest
  if rest.head? = some '.' ∧ (digitsOf? Char.isDigit fraction).isNone then none
  if rest.head? ≠ some '.' ∧ ending.isEmpty then none
  if !ending.isEmpty then
    if ending.head? ≠ some 'e' ∧ ending.head? ≠ some 'E' then none
    let _ ← digitsOf? Char.isDigit (Decimal.dropSign (ending.drop 1))
  let numeral ← Decimal.Numeral.read? (cs.filter (· ≠ '_'))
  match cs.head? == some '-', numeral.isFinite with
  | false, false => none
  | true, false => return .float (-1.0 / 0.0)
  | false, true => return .float numeral.toFloat
  | true, true => return .float (-numeral.toFloat)

/-- Infinities and what is not a number. -/
def specialOf? (cs : List Char) : Option Json :=
  let word := Decimal.dropSign cs
  if word = "inf".toList then
    some (.float (if cs.head? = some '-' then -1.0 / 0.0 else 1.0 / 0.0))
  else if word = "nan".toList then some (.float (0.0 / 0.0))
  else none

/-- The number of exactly so many digits. -/
def fixedOf? (count : Nat) (cs : List Char) : Option Nat :=
  if cs.length = count ∧ cs.all Char.isDigit then some (Decimal.spelled cs) else none

/-- A calendar date. -/
def isDate (cs : List Char) : Bool :=
  match cs.splitOn '-' with
  | [year, month, day] =>
    match fixedOf? 4 year, fixedOf? 2 month, fixedOf? 2 day with
    | some year, some month, some day => Calendar.Date.isValid ⟨year, month, day⟩
    | _, _, _ => false
  | _ => false

/-- A clock time, with an optional fraction of a second. -/
def isTime (cs : List Char) : Bool :=
  match cs.splitOn ':' with
  | [hour, minute, second] =>
    let whole := second.take 2
    let fraction := second.drop 2
    let fractionFits := fraction.isEmpty ||
      (fraction.head? == some '.' && 1 < fraction.length && (fraction.drop 1).all Char.isDigit)
    match fixedOf? 2 hour, fixedOf? 2 minute, fixedOf? 2 whole with
    | some hour, some minute, some second =>
      hour ≤ 23 && minute ≤ 59 && second ≤ 60 && fractionFits
    | _, _, _ => false
  | _ => false

/-- An offset from UTC, in hours and minutes. -/
def isOffset : List Char → Bool
  | c :: cs =>
    (c == '+' || c == '-') &&
      match cs.splitOn ':' with
      | [hours, minutes] =>
        (fixedOf? 2 hours).any (· ≤ 23) && (fixedOf? 2 minutes).any (· ≤ 59)
      | _ => false
  | [] => false

/-- A clock time with an optional offset. -/
def isTimeWithOffset (cs : List Char) : Bool :=
  isTime cs ||
    ((cs.getLast? == some 'Z' || cs.getLast? == some 'z') && isTime cs.dropLast) ||
    (isTime (cs.take (cs.length - 6)) && isOffset (cs.drop (cs.length - 6)))

/-- A date, a time, or both with a separating letter or blank. -/
def isDateTime (cs : List Char) : Bool :=
  isTime cs || isDate cs ||
    (isDate (cs.take 10) && (cs[10]? == some 'T' || cs[10]? == some 't' || cs[10]? == some ' ') &&
      isTimeWithOffset (cs.drop 11))

/-- The document that stands for a date or a time. -/
def dateDocument (cs : List Char) : Json :=
  .object [("$datetime", .string (String.ofList cs))]

/-- A word, a number or a date. -/
def scalarOf? (cs : List Char) : Option Json :=
  if cs = "true".toList then some (.bool true)
  else if cs = "false".toList then some (.bool false)
  else
    match cs with
    | '0' :: 'x' :: digits => basedOf? 16 digits
    | '0' :: 'o' :: digits => basedOf? 8 digits
    | '0' :: 'b' :: digits => basedOf? 2 digits
    | cs =>
      decimalOf? cs <|> floatOf? cs <|> specialOf? cs <|>
        (if isDateTime cs then some (dateDocument cs) else none)

/-- Read a word, a number or a date. A date may be followed by a blank and a time. -/
def readScalar (cs : List Char) : Except String (Json × List Char) :=
  let word := cs.takeWhile isScalarChar
  let rest := cs.dropWhile isScalarChar
  let time := (rest.drop 1).takeWhile isScalarChar
  if rest.head? = some ' ' ∧ isDate word ∧ (time.head?.any Char.isDigit) then
    if isDateTime (word ++ ' ' :: time) then
      .ok (dateDocument (word ++ ' ' :: time), (rest.drop 1).dropWhile isScalarChar)
    else .error "invalid date"
  else
    match scalarOf? word with
    | some document => .ok (document, rest)
    | none => .error "invalid value"

end EntityQuery.Toml
