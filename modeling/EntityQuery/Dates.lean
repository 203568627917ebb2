import EntityQuery.Instant.Rfc3339
import EntityQuery.Value.Basic

/-!
# Reading and writing dates

Which values count as instants, and how an instant is written into a query, is a
choice of the caller. The standard choice reads instants, RFC 3339 texts, calendar
dates and Unix milliseconds, and writes RFC 3339.
-/

namespace EntityQuery

/-- A choice of reading and writing dates. -/
structure DateStyle where
  /-- The instant that a value denotes, if it denotes one. -/
  read? : Value → Option Instant
  /-- The text of an instant, or of its calendar date when the flag is set. -/
  write : Instant → Bool → String

/-- The instant that a value denotes by the standard choice. -/
def DateStyle.readStandard? : Value → Option Instant
  | .instant t => some t
  | .string text => Instant.ofText? text
  | .int millis => Instant.ofMillis? millis.toInt
  | _ => none

/-- Write an instant, or its calendar date, by the standard choice. -/
def DateStyle.writeStandard (t : Instant) (dateOnly : Bool) : String :=
  if dateOnly then t.dateOnlyText else t.text

/-- The standard choice. -/
def DateStyle.standard : DateStyle := ⟨readStandard?, writeStandard⟩

end EntityQuery
