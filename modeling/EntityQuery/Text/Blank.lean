/-!
# Blank characters, trimming and words

A character is blank when it has the Unicode property White_Space. Trimming and
splitting into words use the whole property, so a no-break space or an
ideographic space separates words just as an ordinary space does.
-/

namespace EntityQuery.Text

/-- The code points of Unicode White_Space. -/
def isBlank (c : Char) : Bool :=
  let n := c.toNat
  (0x09 ≤ n && n ≤ 0x0d) || n == 0x20 || n == 0x85 || n == 0xa0 || n == 0x1680 ||
    (0x2000 ≤ n && n ≤ 0x200a) || n == 0x2028 || n == 0x2029 || n == 0x202f ||
    n == 0x205f || n == 0x3000

/-- Drop blanks from both ends of a list of characters. -/
def trimChars (cs : List Char) : List Char :=
  ((cs.dropWhile isBlank).reverse.dropWhile isBlank).reverse

/-- Drop blanks from both ends of a text. -/
def trim (text : String) : String :=
  String.ofList (trimChars text.toList)

/-- Nothing but blanks, or nothing at all. -/
def isBlankText (text : String) : Bool :=
  text.toList.all isBlank

/-- The maximal runs of characters that are not blank. -/
def words (text : String) : List String :=
  ((text.toList.splitOnP isBlank).filter (!·.isEmpty)).map String.ofList

end EntityQuery.Text
