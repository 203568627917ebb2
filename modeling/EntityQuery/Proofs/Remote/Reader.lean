import EntityQuery.Proofs.Remote.Words
import EntityQuery.Text.Quoted
import Mathlib.Data.List.DropRight

/-!
# Reading a filter by the rules of the service

A filter text is cut into tokens: a quoted text with its doubled quotes is one of them,
blanks and commas stand for themselves, and everything else between is a word. Parentheses
make one item of what they enclose. The items between the words that join are read apart:
what is joined by `or` first, what is joined by `and` inside of it, and a negation closest
of all. What remains is a comparison or a call, and counts as a whole.
-/

namespace EntityQuery

namespace Text

/-- What was read had its apostrophes doubled and was closed by one. -/
theorem eq_of_readQuoted {cs text rest : List Char} (h : readQuoted cs = some (text, rest)) :
    cs = doubleApostrophes text ++ '\'' :: rest := by
  fun_induction readQuoted cs generalizing text rest with
  | case1 => cases h
  | case2 cs ih =>
    obtain ⟨⟨inner, behind⟩, hread, heq⟩ := Option.map_eq_some_iff.mp h
    obtain ⟨rfl, rfl⟩ := Prod.mk.inj heq
    rw [ih hread]
    rfl
  | case3 cs _ =>
    obtain ⟨rfl, rfl⟩ := Prod.mk.inj (Option.some.inj h)
    rfl
  | case4 c cs _ hc ih =>
    obtain ⟨⟨inner, behind⟩, hread, heq⟩ := Option.map_eq_some_iff.mp h
    obtain ⟨rfl, rfl⟩ := Prod.mk.inj heq
    rw [ih hread, doubleApostrophes, if_neg hc]
    rfl

/-- A quoted text is read from the front. -/
theorem length_lt_of_readQuoted {cs text rest : List Char}
    (h : readQuoted cs = some (text, rest)) : rest.length < cs.length := by
  rw [eq_of_readQuoted h, List.length_append, List.length_cons]
  omega

end Text

namespace Remote

/-- A piece of a filter text. -/
inductive Token where
  /-- A blank or a comma. -/
  | mark (c : Char)
  /-- An opening parenthesis. -/
  | opening
  /-- A closing parenthesis. -/
  | closing
  /-- A maximal run of characters that end no word. -/
  | word (text : List Char)
  /-- A text between quotes, doubled quotes read as one. -/
  | quoted (text : List Char)
  deriving Repr, DecidableEq

/-- The characters of a token. -/
def Token.chars : Token → List Char
  | mark c => [c]
  | opening => ['(']
  | closing => [')']
  | word text => text
  | quoted text => '\'' :: Text.doubleApostrophes text ++ ['\'']

/-- Cut a text into tokens. A quoted text that does not end is refused. -/
def lex (cs : List Char) : Option (List Token) :=
  match cs with
  | [] => some []
  | c :: cs =>
    if c = '\'' then
      match _hread : Text.readQuoted cs with
      | some (text, rest) => (lex rest).map (Token.quoted text :: ·)
      | none => none
    else if c = '(' then (lex cs).map (Token.opening :: ·)
    else if c = ')' then (lex cs).map (Token.closing :: ·)
    else if isPlain c then
      (lex (cs.dropWhile isPlain)).map (Token.word (c :: cs.takeWhile isPlain) :: ·)
    else (lex cs).map (Token.mark c :: ·)
termination_by cs.length
decreasing_by
  · have hlength := Text.length_lt_of_readQuoted _hread
    simp only [List.length_cons]
    omega
  · simp
  · simp
  · have hlength := (List.dropWhile_sublist isPlain (l := cs)).length_le
    simp only [List.length_cons]
    omega
  · simp

/-- A formula over the comparisons and calls of a filter. -/
inductive Formula where
  /-- A comparison or a call, by its text. -/
  | leaf (text : String)
  /-- Always or never. -/
  | const (verdict : Bool)
  /-- A formula does not hold. -/
  | not (body : Formula)
  /-- Both formulas hold. -/
  | and (left right : Formula)
  /-- At least one of two formulas holds. -/
  | or (left right : Formula)
  deriving Repr, DecidableEq

/-- The truth of a formula when the truth of every leaf is given. -/
def Formula.eval (assignment : String → Bool) : Formula → Bool
  | leaf text => assignment text
  | const verdict => verdict
  | not body => !body.eval assignment
  | and left right => left.eval assignment && right.eval assignment
  | or left right => left.eval assignment || right.eval assignment

/-- A token, or what stands between parentheses together with them. -/
inductive Item where
  /-- A token that is no parenthesis. -/
  | token (content : Token)
  /-- Parentheses, the formula between them if there is one, and all of their characters. -/
  | group (inside : Option Formula) (chars : List Char)

namespace Item

/-- The characters of an item. -/
def chars : Item → List Char
  | token content => content.chars
  | group _ chars => chars

/-- The item is a blank. -/
def isBlank : Item → Bool
  | token (.mark c) => Text.isBlank c
  | _ => false

/-- The item is this word. -/
def isWord (text : String) : Item → Bool
  | token (.word word) => word == text.toList
  | _ => false

@[simp] theorem isBlank_group (inside : Option Formula) (chars : List Char) :
    (group inside chars).isBlank = false := rfl

@[simp] theorem isWord_group (text : String) (inside : Option Formula) (chars : List Char) :
    (group inside chars).isWord text = false := rfl

end Item

/-- Read a comparison or a call: all of its characters but the blanks behind them. -/
def readLeaf (items : List Item) : Formula :=
  let text := String.ofList ((items.rdropWhile Item.isBlank).flatMap Item.chars)
  if text = "true" then .const true
  else if text = "false" then .const false
  else .leaf text

/-- Read what stands between words that join: a negation, a formula in parentheses, or a
comparison or a call. -/
def readOperand : List Item → Option Formula
  | [] => none
  | item :: rest =>
    if item.isBlank then readOperand rest
    else if item.isWord "not" then (readOperand rest).map .not
    else
      match item with
      | .group inside _ => if rest.all Item.isBlank then inside else some (readLeaf (item :: rest))
      | .token _ => some (readLeaf (item :: rest))

/-- Read what stands between occurrences of a word apart, and join it. -/
def readJoined (word : String) (join : Formula → Formula → Formula)
    (read : List Item → Option Formula) (items : List Item) : Option Formula := do
  match ← (items.splitOnP (Item.isWord word)).mapM read with
  | [] => none
  | first :: rest => some (rest.foldl join first)

/-- Read operands joined by `and`. -/
def readConjunction : List Item → Option Formula := readJoined "and" .and readOperand

/-- Read conjunctions joined by `or`. -/
def readDisjunction : List Item → Option Formula := readJoined "or" .or readConjunction

/-- Put parentheses around items. -/
def Item.closed (items : List Item) : Item :=
  .group (readDisjunction items) ('(' :: items.flatMap Item.chars ++ [')'])

/-- Make items of tokens. The items so far stand in reverse, and below them those before
the parentheses that are still open. -/
def nest : List Token → List Item → List (List Item) → Option (List Item)
  | [], items, [] => some items.reverse
  | [], _, _ :: _ => none
  | .opening :: tokens, items, outer => nest tokens [] (items :: outer)
  | .closing :: tokens, items, before :: outer =>
    nest tokens (Item.closed items.reverse :: before) outer
  | .closing :: _, _, [] => none
  | token :: tokens, items, outer => nest tokens (.token token :: items) outer

/-- Read a filter text. -/
def readFilter (text : String) : Option Formula := do
  let tokens ← lex text.toList
  let items ← nest tokens [] []
  readDisjunction items

end Remote

end EntityQuery
