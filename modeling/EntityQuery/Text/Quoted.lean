/-!
# Quoted texts

A quoted text stands between apostrophes, and an apostrophe inside it is written
twice. A quoted text therefore ends at the first apostrophe that is not doubled,
whatever the text holds.
-/

namespace EntityQuery.Text

/-- Write every apostrophe twice. -/
def doubleApostrophes : List Char → List Char
  | [] => []
  | c :: cs => if c = '\'' then '\'' :: '\'' :: doubleApostrophes cs else c :: doubleApostrophes cs

/-- The quoted form of a text. -/
def quote (text : String) : String :=
  "'" ++ String.ofList (doubleApostrophes text.toList) ++ "'"

/-- Read up to the first apostrophe that is not doubled: what was quoted, and what
follows the closing apostrophe. -/
def readQuoted : List Char → Option (List Char × List Char)
  | [] => none
  | '\'' :: '\'' :: cs => (readQuoted cs).map fun (text, rest) => ('\'' :: text, rest)
  | c :: cs =>
    if c = '\'' then some ([], cs)
    else (readQuoted cs).map fun (text, rest) => (c :: text, rest)

/-- Reading a quoted text gives the text, and stops right after it unless another
apostrophe follows. -/
theorem readQuoted_doubleApostrophes (text rest : List Char) (h : rest.head? ≠ some '\'') :
    readQuoted (doubleApostrophes text ++ '\'' :: rest) = some (text, rest) := by
  induction text with
  | nil =>
    cases rest with
    | nil => simp [doubleApostrophes, readQuoted]
    | cons c cs =>
      have hc : c ≠ '\'' := by simpa using h
      simp only [doubleApostrophes, List.nil_append]
      rw [readQuoted.eq_3]
      · simp
      · intro tail he
        simp_all
  | cons c cs ih =>
    by_cases hc : c = '\''
    · simp [doubleApostrophes, hc, readQuoted, ih]
    · simp only [doubleApostrophes, hc, if_false, List.cons_append]
      rw [readQuoted.eq_3]
      · simp [hc, ih]
      · intro tail he
        simp_all

end EntityQuery.Text
