import EntityQuery.Proofs.Remote.Formulas
import EntityQuery.Proofs.Remote.Terms

/-!
# Comparisons and searches as operands

The sides of a comparison are terms with blanks between them and the operator, and the
arguments of a text search are terms with a comma between them. No term joins or negates,
whatever text it quotes, so both are read as a whole.
-/

namespace EntityQuery.Remote

/-- A text that is scanned to tokens none of which is a blank or a reserved word. -/
structure IsPhrase (text : List Char) (items : List Item) : Prop where
  /-- The text scans to the items. -/
  scans : Scans text items
  /-- The items have its characters. -/
  chars : items.flatMap Item.chars = text
  /-- There are some. -/
  nonempty : items ≠ []
  /-- They are tokens that mean nothing to the reader of a formula. -/
  inert : ∀ item ∈ items, ∃ token, item = .token token ∧ Item.isBlank (.token token) = false ∧
    ∀ word ∈ reservedWords, Item.isWord word (.token token) = false

/-- A word is not one of the reserved words. -/
theorem IsWord.isWord_eq_false {text : String} (h : IsWord text) :
    ∀ word ∈ reservedWords, Item.isWord word (.token (.word text.toList)) = false := by
  intro word hword
  refine beq_false_of_ne fun heq => h.free ?_
  rw [String.toList_inj.mp heq]
  exact hword

/-- A word is a phrase. -/
theorem IsWord.isPhrase {text : String} (h : IsWord text) :
    IsPhrase text.toList [.token (.word text.toList)] where
  scans := scans_word h.nonempty h.plain
  chars := by simp [Item.chars, Token.chars]
  nonempty := List.cons_ne_nil _ _
  inert item hitem := ⟨_, List.mem_singleton.mp hitem, rfl, h.isWord_eq_false⟩

/-- The characters of a quoted text are those of its token. -/
theorem toList_quote (text : String) :
    (Text.quote text).toList = (Token.quoted text.toList).chars := by
  simp [Text.quote, Token.chars]

/-- A quoted text is a phrase. -/
theorem isPhrase_quote (text : String) :
    IsPhrase (Text.quote text).toList [.token (.quoted text.toList)] where
  scans := by
    rw [toList_quote]
    exact scans_quoted text.toList
  chars := by simp [toList_quote, Item.chars]
  nonempty := List.cons_ne_nil _ _
  inert item hitem := ⟨_, List.mem_singleton.mp hitem, rfl, fun _ _ => rfl⟩

/-- A word with a quoted text right behind it is a phrase. -/
theorem IsWord.isPhrase_append_quote {typeName : String} (h : IsWord typeName) (text : String) :
    IsPhrase (typeName.toList ++ (Text.quote text).toList)
      [.token (.word typeName.toList), .token (.quoted text.toList)] where
  scans := by
    intro rest before outer hrest
    have hword : lex (typeName.toList ++ ((Text.quote text).toList ++ rest)) =
        (lex ((Text.quote text).toList ++ rest)).map (Token.word typeName.toList :: ·) := by
      refine lex_word h.nonempty h.plain fun c hc => ?_
      simp only [toList_quote, Token.chars, List.cons_append, List.head?_cons,
        Option.mem_some_iff] at hc
      rw [← hc]
      decide
    rw [List.append_assoc, scan_of_lex Token.noConfusion Token.noConfusion hword,
      (isPhrase_quote text).scans _ _ _ hrest]
    rfl
  chars := by simp [toList_quote, Item.chars, Token.chars]
  nonempty := List.cons_ne_nil _ _
  inert item hitem := by
    rcases List.mem_cons.mp hitem with rfl | hitem
    · exact ⟨_, rfl, rfl, h.isWord_eq_false⟩
    · exact (isPhrase_quote text).inert item hitem

/-- A term is a phrase. -/
theorem Literal.IsTerm.exists_isPhrase {literal : Literal} (h : literal.IsTerm) :
    ∃ items, IsPhrase literal.text.toList items := by
  cases literal with
  | bare text => exact ⟨_, IsWord.isPhrase h⟩
  | quoted text => exact ⟨_, isPhrase_quote text⟩
  | enumeration typeName text =>
    have hphrase := IsWord.isPhrase_append_quote h text
    rw [← String.toList_append] at hphrase
    exact ⟨_, hphrase⟩

/-- Phrases with blanks around an operator are a comparison. -/
theorem isLeaf_comparison {left right : List Item} {leftText rightText op : List Char}
    (hleft : IsPhrase leftText left) (hright : IsPhrase rightText right)
    (hop : IsPhrase op [.token (.word op)]) :
    IsLeaf (left ++ .token (.mark ' ') :: .token (.word op) :: .token (.mark ' ') :: right) where
  first := by
    obtain ⟨item, rest, rfl⟩ := List.exists_cons_of_ne_nil hleft.nonempty
    obtain ⟨token, rfl, hblank, hword⟩ := hleft.inert item List.mem_cons_self
    exact ⟨token, _, rfl, hblank, hword "not" (by decide)⟩
  last := by
    intro item hitem
    have hlast : right.getLast? = some item := by
      rw [List.getLast?_append] at hitem
      obtain ⟨next, rest, rfl⟩ := List.exists_cons_of_ne_nil hright.nonempty
      simpa [List.getLast?_cons_cons] using hitem
    obtain ⟨token, rfl, hblank, _⟩ := hright.inert item (List.mem_of_getLast? hlast)
    exact hblank
  unjoined := by
    have hinert : ∀ {text : List Char} {items : List Item}, IsPhrase text items →
        ∀ item ∈ items, item.isWord "and" = false ∧ item.isWord "or" = false := by
      intro text items h item hitem
      obtain ⟨token, rfl, _, hword⟩ := h.inert item hitem
      exact ⟨hword "and" (by decide), hword "or" (by decide)⟩
    intro item hitem
    rcases List.mem_append.mp hitem with hitem | hitem
    · exact hinert hleft item hitem
    · simp only [List.mem_cons] at hitem
      rcases hitem with rfl | rfl | rfl | hitem
      · exact ⟨rfl, rfl⟩
      · exact hinert hop _ List.mem_cons_self
      · exact ⟨rfl, rfl⟩
      · exact hinert hright item hitem

/-- A comparison of phrases is an operand. -/
theorem isOperand_comparison {left right : String} {op : Comparison} {leftItems : List Item}
    {rightItems : List Item} (hleft : IsPhrase left.toList leftItems)
    (hright : IsPhrase right.toList rightItems) :
    IsOperand (left ++ " " ++ operatorWord op ++ " " ++ right).toList
      (fun assignment => assignment (left ++ " " ++ operatorWord op ++ " " ++ right)) := by
  have hop := (isWord_operatorWord op).isPhrase
  have htext : (left ++ " " ++ operatorWord op ++ " " ++ right).toList =
      left.toList ++ ' ' :: ((operatorWord op).toList ++ ' ' :: right.toList) := by
    simp
  have hscans := hleft.scans.append
    (hop.scans.append hright.scans.blank fun _ _ => ends_blank).blank fun _ _ => ends_blank
  rw [← htext] at hscans
  refine isOperand_of_isLeaf hscans ?_ (isLeaf_comparison hleft hright hop) ?_
  · rw [htext, ← hleft.chars, ← hright.chars]
    simp [Item.chars, Token.chars]
  · have hblank : ' ' ∈ (left ++ " " ++ operatorWord op ++ " " ++ right).toList := by
      simp [htext]
    constructor
    all_goals
      intro heq
      rw [heq] at hblank
      revert hblank
      decide

/-- A call with some arguments is an operand. -/
theorem isOperand_call {name : String} {arguments : List Char} {items : List Item}
    (hname : IsWord name) (hscans : Scans arguments items)
    (hchars : items.flatMap Item.chars = arguments) {text : String}
    (htext : text.toList = name.toList ++ ('(' :: arguments ++ [')'])) :
    IsOperand text.toList (fun assignment => assignment text) := by
  have hword := hname.isPhrase
  have hcall := hword.scans.append hscans.closed fun _ _ => ends_opening
  rw [← htext] at hcall
  refine isOperand_of_isLeaf hcall ?_ ⟨?_, ?_, ?_⟩ ?_
  · rw [htext]
    simp [Item.chars, Item.closed, Token.chars, hchars]
  · exact ⟨_, _, rfl, rfl, hname.isWord_eq_false "not" (by decide)⟩
  · intro item hitem
    obtain rfl := Option.some.inj hitem
    rfl
  · intro item hitem
    rcases List.mem_cons.mp hitem with rfl | hitem
    · exact ⟨hname.isWord_eq_false "and" (by decide), hname.isWord_eq_false "or" (by decide)⟩
    · rw [List.mem_singleton.mp hitem]
      exact ⟨rfl, rfl⟩
  · have hopening : '(' ∈ text.toList := by simp [htext]
    constructor
    all_goals
      intro heq
      rw [heq] at hopening
      revert hopening
      decide

/-- The first argument of a text search is scanned apart from a comma behind it. -/
theorem exists_scans_searchSubject {reference : Reference} (h : IsWord reference.text)
    (caseless : Bool) :
    ∃ items, Scans (searchSubject reference caseless).toList items ∧
      items.flatMap Item.chars = (searchSubject reference caseless).toList := by
  have hreference := h.isPhrase
  cases caseless with
  | false => exact ⟨_, hreference.scans, hreference.chars⟩
  | true =>
    have hword : Scans "tolower".toList [.token (.word "tolower".toList)] :=
      scans_word (by decide) (List.all_eq_true.mp (by decide))
    have hscans := hword.append hreference.scans.closed fun _ _ => ends_opening
    have htext : (searchSubject reference true).toList =
        "tolower".toList ++ ('(' :: reference.text.toList ++ [')']) := by
      simp [searchSubject]
    rw [htext]
    refine ⟨_, hscans, ?_⟩
    simp [Item.chars, Item.closed, Token.chars]

/-- A text search is an operand. -/
theorem isOperand_contains {reference : Reference} (h : IsWord reference.text)
    (caseless : Bool) (text : String) :
    IsOperand ("contains(" ++ searchSubject reference caseless ++ "," ++ Text.quote text ++
        ")").toList
      (fun assignment => assignment
        ("contains(" ++ searchSubject reference caseless ++ "," ++ Text.quote text ++ ")")) := by
  obtain ⟨items, hscans, hchars⟩ := exists_scans_searchSubject h caseless
  have hcomma : Scans (',' :: (Text.quote text).toList)
      [.token (.mark ','), .token (.quoted text.toList)] :=
    (isPhrase_quote text).scans.mark (by decide) (by decide) (by decide) (by decide)
  have hname : IsWord "contains" := by decide
  refine isOperand_call hname (hscans.append hcomma fun _ _ => ends_comma) ?_ ?_
  · rw [List.flatMap_append, hchars]
    simp [Item.chars, Token.chars, toList_quote]
  · simp

end EntityQuery.Remote
