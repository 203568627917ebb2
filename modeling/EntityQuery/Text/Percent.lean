/-!
# Percent-encoding

In a query string every byte of a text in UTF-8 is written as a percent sign and
two hexadecimal digits, except for ASCII letters, digits and four marks, which
stand for themselves.
-/

namespace EntityQuery.Text

/-- Characters that stand for themselves. -/
def isUnreserved (c : Char) : Bool :=
  c.isAlphanum || c == '-' || c == '_' || c == '.' || c == '~'

/-- The digit of a number below sixteen, letters in capitals. -/
def hexDigit (n : Nat) : Char :=
  if n < 10 then Char.ofNat (48 + n) else Char.ofNat (55 + n)

/-- A byte as a percent sign and two digits. -/
def percentByte (byte : UInt8) : List Char :=
  ['%', hexDigit (byte.toNat / 16), hexDigit (byte.toNat % 16)]

/-- The encoded form of one character. -/
def percentChar (c : Char) : List Char :=
  if isUnreserved c then [c] else (String.utf8EncodeChar c).flatMap percentByte

/-- The encoded form of a text. -/
def percentEncode (text : String) : String :=
  String.ofList (text.toList.flatMap percentChar)

end EntityQuery.Text
