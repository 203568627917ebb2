import EntityQuery.Json.Reader

/-!
# Texts in TOML

Four kinds of quotes hold texts. Double quotes allow escapes, single quotes do not;
three quotes in a row allow several lines, of which an empty first one is dropped.
Control characters other than tabs, and the delete character, stand nowhere. Line
breaks are single characters here; `normalizeBreaks` sees to that.
-/

namespace EntityQuery.Toml

/-- Write every line break as one character. -/
def normalizeBreaks : List Char → List Char
  | '\r' :: '\n' :: cs => '\n' :: normalizeBreaks cs
  | c :: cs => c :: normalizeBreaks cs
  | [] => []

/-- Characters that may stand in comments and texts. -/
def isPlain (c : Char) : Bool :=
  c == '\t' || (32 ≤ c.toNat && c.toNat ≠ 127)

/-- Blanks within a line. -/
def isInlineBlank (c : Char) : Bool := c == ' ' || c == '\t'

/-- Drop blanks within a line. -/
def skipInline (cs : List Char) : List Char := cs.dropWhile isInlineBlank

/-- The character of an escape that gives its code point in so many digits. -/
def readCodePoint (count : Nat) (cs : List Char) : Except String (Char × List Char) :=
  let digits := cs.take count
  match digits.mapM Json.hexValue? with
  | none => .error "invalid escape"
  | some values =>
    let n := values.foldl (fun n digit => 16 * n + digit) 0
    if digits.length < count then .error "invalid escape"
    else if h : n.isValidChar then .ok (Char.ofNatAux n h, cs.drop count)
    else .error "invalid code point"

/-- The character of an escape after its backslash. -/
def readEscape : List Char → Except String (Char × List Char)
  | '"' :: cs => .ok ('"', cs)
  | '\\' :: cs => .ok ('\\', cs)
  | 'b' :: cs => .ok (Char.ofNat 8, cs)
  | 'f' :: cs => .ok (Char.ofNat 12, cs)
  | 'n' :: cs => .ok ('\n', cs)
  | 'r' :: cs => .ok ('\r', cs)
  | 't' :: cs => .ok ('\t', cs)
  | 'u' :: cs => readCodePoint 4 cs
  | 'U' :: cs => readCodePoint 8 cs
  | _ => .error "invalid escape"

/-- Read a text of one line up to its closing double quote. -/
def readBasic : Nat → List Char → List Char → Except String (String × List Char)
  | 0, _, _ => .error "unexpected end of text"
  | _ + 1, _, [] => .error "unexpected end of text"
  | fuel + 1, before, c :: cs =>
    if c = '"' then .ok (String.ofList before.reverse, cs)
    else if c = '\\' then
      match readEscape cs with
      | .ok (c, cs) => readBasic fuel (c :: before) cs
      | .error e => .error e
    else if isPlain c then readBasic fuel (c :: before) cs
    else .error "control character in a text"

/-- Read a text of one line up to its closing single quote. -/
def readLiteral (cs : List Char) : Except String (String × List Char) :=
  let text := cs.takeWhile fun c => c ≠ '\'' && isPlain c
  match cs.dropWhile (fun c => c ≠ '\'' && isPlain c) with
  | '\'' :: rest => .ok (String.ofList text, rest)
  | _ => .error "unexpected end of text"

/-- The text before three closing quotes, of which up to two more belong to the text. -/
def closeLong (quote : Char) (before cs : List Char) : String × List Char :=
  let extra := min 2 (cs.takeWhile (· == quote)).length
  (String.ofList (before.reverse ++ List.replicate extra quote), cs.drop extra)

/-- What follows a line break after a backslash: blanks and breaks are dropped. -/
def skipFolded (cs : List Char) : List Char :=
  cs.dropWhile fun c => isInlineBlank c || c == '\n'

/-- Read a text of several lines up to three closing double quotes. -/
def readLongBasic : Nat → List Char → List Char → Except String (String × List Char)
  | 0, _, _ => .error "unexpected end of text"
  | _ + 1, before, '"' :: '"' :: '"' :: cs => .ok (closeLong '"' before cs)
  | fuel + 1, before, '\\' :: cs =>
    if (skipInline cs).head? = some '\n' then readLongBasic fuel before (skipFolded cs)
    else
      match readEscape cs with
      | .ok (c, cs) => readLongBasic fuel (c :: before) cs
      | .error e => .error e
  | fuel + 1, before, c :: cs =>
    if c = '\n' || isPlain c then readLongBasic fuel (c :: before) cs
    else .error "control character in a text"
  | _ + 1, _, [] => .error "unexpected end of text"

/-- Read a text of several lines up to three closing single quotes. -/
def readLongLiteral : List Char → List Char → Except String (String × List Char)
  | before, '\'' :: '\'' :: '\'' :: cs => .ok (closeLong '\'' before cs)
  | before, c :: cs =>
    if c = '\n' || isPlain c then readLongLiteral (c :: before) cs
    else .error "control character in a text"
  | _, [] => .error "unexpected end of text"

/-- Drop a line break right after the opening quotes. -/
def dropFirstBreak : List Char → List Char
  | '\n' :: cs => cs
  | cs => cs

/-- Read a text of one line, if one comes next. -/
def readShortText? : List Char → Option (Except String (String × List Char))
  | '"' :: cs => some (readBasic (cs.length + 1) [] cs)
  | '\'' :: cs => some (readLiteral cs)
  | _ => none

/-- Read a text, if one comes next. -/
def readText? : List Char → Option (Except String (String × List Char))
  | '"' :: '"' :: '"' :: cs => some (readLongBasic (cs.length + 1) [] (dropFirstBreak cs))
  | '\'' :: '\'' :: '\'' :: cs => some (readLongLiteral [] (dropFirstBreak cs))
  | cs => readShortText? cs

end EntityQuery.Toml
