/-!
# Texts within texts
-/

namespace EntityQuery.Text

/-- One sequence of characters stands somewhere within another. -/
def occursIn (needle : List Char) : List Char → Bool
  | [] => needle.isEmpty
  | c :: rest => needle.isPrefixOf (c :: rest) || occursIn needle rest

/-- A text stands somewhere within another. -/
def isWithin (needle text : String) : Bool := occursIn needle.toList text.toList

end EntityQuery.Text
