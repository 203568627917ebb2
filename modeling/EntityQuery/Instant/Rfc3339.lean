import EntityQuery.Instant.Basic
import EntityQuery.Text.Blank

/-!
# Instants as RFC 3339 text

The written form has a date, a separator, a time with as many places as needed, and
an offset in hours and minutes, where UTC is a single letter. Only years of four
digits without a sign and offsets of whole minutes within a day can be written.

When reading, any one ASCII character separates date and time, letters may be small,
places after the ninth are dropped, and a sixtieth second is accepted where a leap
second can be: at the end of the last day of a month in UTC. It is read as the last
nanosecond before it.
-/

namespace EntityQuery.Instant

/-- A number in decimal digits, with zeros in front up to a width. -/
def padded (width n : Nat) : List Char :=
  let digits := Nat.toDigits 10 n
  List.replicate (width - digits.length) '0' ++ digits

/-- A year with four digits at least, and a sign when negative. -/
def yearText (year : Int) : List Char :=
  if year < 0 then '-' :: padded 4 year.natAbs else padded 4 year.natAbs

/-- A date as year, month and day. -/
def dateText (date : Calendar.Date) : List Char :=
  yearText date.year ++ '-' :: padded 2 date.month ++ '-' :: padded 2 date.day

/-- The places of a part of a second, zeros at the end dropped. -/
def placesText (nanosecond : Nat) : List Char :=
  ((padded 9 nanosecond).reverse.dropWhile (· == '0')).reverse

/-- Minutes and seconds after the hour. -/
def clockText (t : Instant) : List Char :=
  ':' :: padded 2 t.minute ++ ':' :: padded 2 t.second

/-- The sign of an offset. -/
def offsetSign (offset : Int) : Char := if offset < 0 then '-' else '+'

/-- An offset in hours and minutes. -/
def offsetText (offset : Int) : List Char :=
  if offset = 0 then ['Z']
  else
    let minutes := offset.natAbs / 60
    offsetSign offset :: padded 2 (minutes / 60) ++ ':' :: padded 2 (minutes % 60)

/-- The instant has a written form. -/
def isExpressible (t : Instant) : Bool :=
  0 ≤ t.date.year && t.date.year ≤ 9999 && t.offset.natAbs < 86400 && t.offset % 60 = 0

/-- The written form, if there is one. -/
def rfc3339? (t : Instant) : Option String :=
  if t.isExpressible then
    let places := if t.nanosecond = 0 then [] else '.' :: placesText t.nanosecond
    some (String.ofList (dateText t.date ++ 'T' :: padded 2 t.hour ++ t.clockText ++ places ++
      offsetText t.offset))
  else none

/-- The text for an instant that has no written form: hours without a zero in front, at
least one place, and the offset down to seconds. -/
def longText (t : Instant) : String :=
  let places := if t.nanosecond = 0 then ['0'] else placesText t.nanosecond
  let offset := t.offset.natAbs
  String.ofList (dateText t.date ++ ' ' :: Nat.toDigits 10 t.hour ++ t.clockText ++
    '.' :: places ++ ' ' :: offsetSign t.offset :: padded 2 (offset / 3600) ++
    ':' :: padded 2 (offset / 60 % 60) ++ ':' :: padded 2 (offset % 60))

/-- The text of an instant. -/
def text (t : Instant) : String := t.rfc3339?.getD t.longText

/-- The text of the calendar date that the clock shows. -/
def dateOnlyText (t : Instant) : String := String.ofList (dateText t.date)

/-- The number that digits spell behind a number. -/
def spelledFrom (start : Nat) (digits : List Char) : Nat :=
  digits.foldl (fun n c => 10 * n + (c.toNat - 48)) start

/-- The number spelled by exactly so many digits, and what follows them. -/
def digits? (count : Nat) (cs : List Char) : Option (Nat × List Char) :=
  let digits := cs.take count
  if digits.length = count ∧ digits.all Char.isDigit then
    some (spelledFrom 0 digits, cs.drop count)
  else none

/-- What follows a given character. -/
def expect? (c : Char) : List Char → Option (List Char)
  | [] => none
  | d :: cs => if d = c then some cs else none

/-- The nanoseconds of a fraction; places after the ninth are dropped. -/
def fractionNanos (digits : List Char) : Nat :=
  spelledFrom 0 ((digits ++ List.replicate 9 '0').take 9)

/-- The fraction of a second, if a point comes next, and what follows it. -/
def readFraction? : List Char → Option (Nat × List Char)
  | '.' :: cs =>
    let digits := cs.takeWhile Char.isDigit
    if digits.isEmpty then none else some (fractionNanos digits, cs.dropWhile Char.isDigit)
  | cs => some (0, cs)

/-- The offset in seconds that a whole text spells. -/
def readOffset? : List Char → Option Int
  | ['Z'] => some 0
  | ['z'] => some 0
  | c :: cs => do
    if c ≠ '+' ∧ c ≠ '-' then none
    let (hours, cs) ← digits? 2 cs
    let cs ← expect? ':' cs
    let (minutes, cs) ← digits? 2 cs
    if 23 < hours ∨ 59 < minutes ∨ !cs.isEmpty then none
    let seconds : Int := (3600 * hours + 60 * minutes : Nat)
    return if c = '-' then -seconds else seconds
  | [] => none

/-- The last nanosecond of the last day of a month in UTC. -/
def precedesLeapSecond (t : Instant) : Bool :=
  let utc : Instant := ⟨t.nanos, 0⟩
  let date := utc.date
  utc.timeOfDay = 86399999999999 && date.day = Calendar.monthLength date.year date.month &&
    -9999 ≤ date.year && date.year ≤ 9999

/-- The date at the front of a text, and what follows it. -/
def readDate? (cs : List Char) : Option (Calendar.Date × List Char) := do
  let (year, cs) ← digits? 4 cs
  let cs ← expect? '-' cs
  let (month, cs) ← digits? 2 cs
  let cs ← expect? '-' cs
  let (day, cs) ← digits? 2 cs
  return (⟨year, month, day⟩, cs)

/-- Read a whole text as an instant. -/
def ofRfc3339Chars? (cs : List Char) : Option Instant := do
  let (date, cs) ← readDate? cs
  let separator ← cs.head?
  if 128 ≤ separator.toNat then none
  let (hour, cs) ← digits? 2 (cs.drop 1)
  let cs ← expect? ':' cs
  let (minute, cs) ← digits? 2 cs
  let cs ← expect? ':' cs
  let (second, cs) ← digits? 2 cs
  let (fraction, cs) ← readFraction? cs
  let offset ← readOffset? cs
  if !date.isValid ∨ 23 < hour ∨ 59 < minute ∨ 60 < second then none
  let nanosecond := if second = 60 then 999999999 else fraction
  let clock := (3600 * hour + 60 * minute + min second 59) * 1000000000 + nanosecond
  let t := ofLocal date.toDay (clock : Nat) offset
  if second = 60 ∧ !t.precedesLeapSecond then none
  return t

/-- Read a text as an instant. -/
def ofRfc3339? (text : String) : Option Instant := ofRfc3339Chars? text.toList

/-- Read a whole text as a calendar date, with an optional sign: midnight in UTC. -/
def ofDateChars? (cs : List Char) : Option Instant := do
  let unsigned := match cs with
    | '-' :: rest => rest
    | '+' :: rest => rest
    | rest => rest
  let (date, rest) ← readDate? unsigned
  let date := if cs.head? = some '-' then { date with year := -date.year } else date
  if !date.isValid ∨ !rest.isEmpty then none
  return ofLocal date.toDay 0 0

/-- Read a text, blanks around it allowed, as an instant or as a calendar date. -/
def ofText? (text : String) : Option Instant :=
  let cs := Text.trimChars text.toList
  match ofRfc3339Chars? cs with
  | some t => some t
  | none => ofDateChars? cs

end EntityQuery.Instant
