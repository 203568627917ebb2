import EntityQuery.Proofs.Remote.Reader

/-!
# Scanning texts that were put together

A text that ends where a word must end is scanned apart from what follows it. So the items
of a filter are those of its parts, however the parts were put together.
-/

namespace EntityQuery.Remote

/-- What follows a word or a quoted text and leaves it alone. -/
def Ends (rest : List Char) : Prop :=
  ∀ c ∈ rest.head?, isPlain c = false ∧ c ≠ '\''

theorem ends_nil : Ends [] := fun _ h => by cases h

theorem ends_cons {c : Char} {rest : List Char} (h : isPlain c = false) (hquote : c ≠ '\'') :
    Ends (c :: rest) := by
  intro other hother
  obtain rfl := Option.some.inj hother
  exact ⟨h, hquote⟩

theorem ends_blank {rest : List Char} : Ends (' ' :: rest) := ends_cons (by decide) (by decide)

theorem ends_opening {rest : List Char} : Ends ('(' :: rest) := ends_cons (by decide) (by decide)

theorem ends_closing {rest : List Char} : Ends (')' :: rest) := ends_cons (by decide) (by decide)

theorem ends_comma {rest : List Char} : Ends (',' :: rest) := ends_cons (by decide) (by decide)

/-- A plain character is no quote and no parenthesis. -/
theorem ne_of_isPlain {c : Char} (h : isPlain c = true) : c ≠ '\'' ∧ c ≠ '(' ∧ c ≠ ')' := by
  refine ⟨?_, ?_, ?_⟩
  all_goals
    rintro rfl
    cases h

theorem lex_word {word rest : List Char} (hne : word ≠ []) (hplain : ∀ c ∈ word, isPlain c = true)
    (hrest : ∀ c ∈ rest.head?, isPlain c = false) :
    lex (word ++ rest) = (lex rest).map (Token.word word :: ·) := by
  cases word with
  | nil => exact absurd rfl hne
  | cons c word =>
    obtain ⟨hquote, hopening, hclosing⟩ := ne_of_isPlain (hplain c List.mem_cons_self)
    have hword : ∀ other ∈ word, isPlain other = true :=
      fun other hother => hplain other (List.mem_cons_of_mem c hother)
    have htake : rest.takeWhile isPlain = [] ∧ rest.dropWhile isPlain = rest := by
      cases rest with
      | nil => exact ⟨rfl, rfl⟩
      | cons next rest => simp [hrest next rfl]
    rw [List.cons_append, lex, if_neg hquote, if_neg hopening, if_neg hclosing,
      if_pos (hplain c List.mem_cons_self), List.takeWhile_append_of_pos hword,
      List.dropWhile_append_of_pos hword, htake.1, htake.2, List.append_nil]

theorem lex_mark {c : Char} {rest : List Char} (hplain : isPlain c = false) (hquote : c ≠ '\'')
    (hopening : c ≠ '(') (hclosing : c ≠ ')') :
    lex (c :: rest) = (lex rest).map (Token.mark c :: ·) := by
  rw [lex, if_neg hquote, if_neg hopening, if_neg hclosing, if_neg (by simp [hplain])]

theorem lex_opening (rest : List Char) :
    lex ('(' :: rest) = (lex rest).map (Token.opening :: ·) := by
  rw [lex, if_neg (by decide), if_pos rfl]

theorem lex_closing (rest : List Char) :
    lex (')' :: rest) = (lex rest).map (Token.closing :: ·) := by
  rw [lex, if_neg (by decide), if_neg (by decide), if_pos rfl]

theorem lex_quoted {text rest : List Char} (hrest : rest.head? ≠ some '\'') :
    lex ((Token.quoted text).chars ++ rest) = (lex rest).map (Token.quoted text :: ·) := by
  have hchars : (Token.quoted text).chars ++ rest =
      '\'' :: (Text.doubleApostrophes text ++ '\'' :: rest) := by
    simp [Token.chars]
  rw [hchars, lex, if_pos rfl]
  have hread := Text.readQuoted_doubleApostrophes text rest hrest
  split
  case h_1 found tail hfound =>
    obtain ⟨rfl, rfl⟩ := Prod.mk.inj (Option.some.inj (hread.symm.trans hfound))
    rfl
  case h_2 hnone =>
    rw [hread] at hnone
    cases hnone

/-- Cut a text into tokens and make items of them, after some items and inside of some open
parentheses. -/
def scan (cs : List Char) (items : List Item) (outer : List (List Item)) :
    Option (List Item) :=
  (lex cs).bind fun tokens => nest tokens items outer

/-- A text scans to some items wherever it ends as a word must end. -/
def Scans (text : List Char) (items : List Item) : Prop :=
  ∀ rest before outer, Ends rest →
    scan (text ++ rest) before outer = scan rest (items.reverse ++ before) outer

/-- A token that is no parenthesis is the next item. -/
theorem scan_of_lex {cs rest : List Char} {token : Token} (hopening : token ≠ .opening)
    (hclosing : token ≠ .closing) (h : lex cs = (lex rest).map (token :: ·))
    (before : List Item) (outer : List (List Item)) :
    scan cs before outer = scan rest (.token token :: before) outer := by
  rw [scan, scan, h]
  cases lex rest with
  | none => rfl
  | some tokens =>
    simp only [Option.map_some, Option.bind_some]
    cases token with
    | opening => exact absurd rfl hopening
    | closing => exact absurd rfl hclosing
    | _ => rfl

theorem scan_mark {c : Char} {rest : List Char} (hplain : isPlain c = false) (hquote : c ≠ '\'')
    (hopening : c ≠ '(') (hclosing : c ≠ ')') (before : List Item) (outer : List (List Item)) :
    scan (c :: rest) before outer = scan rest (.token (.mark c) :: before) outer :=
  scan_of_lex Token.noConfusion Token.noConfusion (lex_mark hplain hquote hopening hclosing) _ _

/-- Parentheses around a text make one item of its items. -/
theorem scan_closed {text : List Char} {items : List Item} (h : Scans text items)
    (rest : List Char) (before : List Item) (outer : List (List Item)) :
    scan ('(' :: (text ++ ')' :: rest)) before outer =
      scan rest (Item.closed items :: before) outer := by
  have hopening : scan ('(' :: (text ++ ')' :: rest)) before outer =
      scan (text ++ ')' :: rest) [] (before :: outer) := by
    rw [scan, scan, lex_opening]
    cases lex (text ++ ')' :: rest) <;> rfl
  have hclosing : scan (')' :: rest) (items.reverse ++ []) (before :: outer) =
      scan rest (Item.closed items :: before) outer := by
    rw [scan, scan, lex_closing]
    cases lex rest with
    | none => rfl
    | some tokens =>
      simp only [Option.map_some, Option.bind_some, nest, List.append_nil, List.reverse_reverse]
  rw [hopening, h _ _ _ ends_closing, hclosing]

/-- A word scans to itself. -/
theorem scans_word {word : List Char} (hne : word ≠ []) (hplain : ∀ c ∈ word, isPlain c = true) :
    Scans word [.token (.word word)] := fun _ before outer hrest =>
  scan_of_lex Token.noConfusion Token.noConfusion
    (lex_word hne hplain fun c hc => (hrest c hc).1) before outer

/-- A quoted text scans to itself. -/
theorem scans_quoted (text : List Char) :
    Scans (Token.quoted text).chars [.token (.quoted text)] := fun rest before outer hrest => by
  refine scan_of_lex Token.noConfusion Token.noConfusion (lex_quoted fun hquote => ?_) before outer
  exact (hrest '\'' hquote).2 rfl

/-- Two texts scan one after the other where the first one ends. -/
theorem Scans.append {front back : List Char} {first second : List Item}
    (hfront : Scans front first) (hback : Scans back second)
    (hends : ∀ rest, Ends rest → Ends (back ++ rest)) :
    Scans (front ++ back) (first ++ second) := by
  intro rest before outer hrest
  rw [List.append_assoc, hfront _ _ _ (hends rest hrest), hback _ _ _ hrest, List.reverse_append,
    List.append_assoc]

/-- A mark before a text is an item of its own. -/
theorem Scans.mark {c : Char} {text : List Char} {items : List Item} (h : Scans text items)
    (hplain : isPlain c = false) (hquote : c ≠ '\'') (hopening : c ≠ '(') (hclosing : c ≠ ')') :
    Scans (c :: text) (.token (.mark c) :: items) := by
  intro rest before outer hrest
  rw [List.cons_append, scan_mark hplain hquote hopening hclosing, h _ _ _ hrest,
    List.reverse_cons, List.append_assoc]
  rfl

/-- A blank before a text is an item of its own. -/
theorem Scans.blank {text : List Char} {items : List Item} (h : Scans text items) :
    Scans (' ' :: text) (.token (.mark ' ') :: items) :=
  h.mark (by decide) (by decide) (by decide) (by decide)

/-- Parentheses around a text scan to one item. -/
theorem Scans.closed {text : List Char} {items : List Item} (h : Scans text items) :
    Scans ('(' :: text ++ [')']) [Item.closed items] := by
  intro rest before outer _
  have htext : '(' :: text ++ [')'] ++ rest = '(' :: (text ++ ')' :: rest) := by simp
  rw [htext, scan_closed h]
  rfl

/-- A filter whose text scans to items is read from these items. -/
theorem readFilter_of_scans {text : String} {items : List Item} (h : Scans text.toList items) :
    readFilter text = readDisjunction items := by
  have hscan := h [] [] [] ends_nil
  rw [List.append_nil, List.append_nil] at hscan
  have hnil : scan [] items.reverse [] = some items := by
    rw [scan, lex, Option.bind_some, nest, List.reverse_reverse]
  have hread : readFilter text = (scan text.toList [] []).bind readDisjunction := by
    rw [readFilter, scan]
    cases lex text.toList <;> rfl
  rw [hread, hscan, hnil, Option.bind_some]

end EntityQuery.Remote
