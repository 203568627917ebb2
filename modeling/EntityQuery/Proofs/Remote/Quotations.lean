import EntityQuery.Proofs.Remote.Acceptance
import EntityQuery.Proofs.Remote.Reader

/-!
# Reading quoted texts back

A text between apostrophes in a filter is read by the rule that an apostrophe inside of it is
written twice. Literals, searched texts and type names are quoted by that rule, so reading one
ends at its closing apostrophe and gives the text. The text of a shape is passed on as it is, so
it is read back exactly if there is no apostrophe in it.
-/

namespace EntityQuery

namespace Text

/-- Doubling adds one character for each apostrophe. -/
theorem length_doubleApostrophes (text : List Char) :
    (doubleApostrophes text).length = text.length + text.count '\'' := by
  induction text with
  | nil => rfl
  | cons c cs ih =>
    by_cases hc : c = '\''
    · simp only [doubleApostrophes, hc, if_true, List.length_cons, ih, List.count_cons_self]
      omega
    · simp only [doubleApostrophes, hc, if_false, List.length_cons, ih,
        List.count_cons_of_ne hc]
      omega

/-- Doubling changes exactly the texts with an apostrophe. -/
theorem doubleApostrophes_eq_self_iff {text : List Char} :
    doubleApostrophes text = text ↔ '\'' ∉ text := by
  constructor
  · intro h
    have hlength := length_doubleApostrophes text
    rw [h] at hlength
    exact List.count_eq_zero.mp (by omega)
  · intro h
    induction text with
    | nil => rfl
    | cons c cs ih =>
      rw [List.mem_cons, not_or] at h
      obtain ⟨hc, hcs⟩ := h
      rw [doubleApostrophes, if_neg (Ne.symm hc), ih hcs]

end Text

/-- The shape that a test is about. -/
def ShapeTest.subject : ShapeTest → String
  | intersects shape => shape
  | distance shape _ _ => shape

/-- A field against which a text is written between apostrophes: a text, a value of an
enumeration, a key that is a text, or a relationship. -/
def Field.quotesTexts (field : Field) : Bool :=
  match field.attributeType?, field.keyType? with
  | some .string, _ | some (.enumeration _), _ => true
  | none, some .string | none, none => true
  | _, _ => false

namespace Remote

/-- A part of a text between apostrophes. -/
structure Quotation where
  /-- What stands before the opening apostrophe. -/
  front : String
  /-- The apostrophes in the text are doubled. -/
  doubled : Bool
  /-- The text that stands between the apostrophes. -/
  text : String
  /-- What stands behind the closing apostrophe. -/
  back : String

namespace Quotation

/-- The text as it is written. -/
def body (quotation : Quotation) : List Char :=
  if quotation.doubled then Text.doubleApostrophes quotation.text.toList
  else quotation.text.toList

/-- What stands behind the opening apostrophe. -/
def rest (quotation : Quotation) : List Char :=
  quotation.body ++ '\'' :: quotation.back.toList

/-- The whole text. -/
def whole (quotation : Quotation) : List Char :=
  quotation.front.toList ++ '\'' :: quotation.rest

/-- A quotation is read back exactly if its apostrophes are doubled or there are none in it. -/
theorem readQuoted_rest_iff {quotation : Quotation}
    (hback : quotation.back.toList.head? ≠ some '\'') :
    Text.readQuoted quotation.rest = some (quotation.text.toList, quotation.back.toList) ↔
      quotation.doubled = true ∨ '\'' ∉ quotation.text.toList := by
  rw [rest, body]
  by_cases hdoubled : quotation.doubled = true
  · rw [if_pos hdoubled, Text.readQuoted_doubleApostrophes _ _ hback]
    simp [hdoubled]
  · rw [if_neg hdoubled]
    constructor
    · intro hread
      have heq := List.append_cancel_right (Text.eq_of_readQuoted hread)
      exact .inr (Text.doubleApostrophes_eq_self_iff.mp heq.symm)
    · intro h
      have hplain := Text.doubleApostrophes_eq_self_iff.mpr (h.resolve_left hdoubled)
      have hread := Text.readQuoted_doubleApostrophes quotation.text.toList _ hback
      rwa [hplain] at hread

end Quotation

/-- The quotation in a literal between other texts, if there is one. -/
def Literal.quotation? (front back : String) : Literal → Option Quotation
  | bare _ => none
  | quoted text => some ⟨front, true, text, back⟩
  | enumeration typeName text => some ⟨front ++ typeName, true, text, back⟩

/-- The quotation in a side between other texts, if there is one. -/
def Side.quotation? (front back : String) : Side → Option Quotation
  | reference _ _ => none
  | literal content => content.quotation? front back

/-- The quotation of a shape between other texts. -/
def Quotation.ofShape (front : String) (kind : ShapeKind) (shape back : String) : Quotation :=
  ⟨front ++ kind.name, false, shape, back⟩

namespace Expression

/-- The quotations in the text of an expression that has no others in it. -/
def quotations : Expression → List Quotation
  | comparison left op right =>
    (left.quotation? "" (" " ++ operatorWord op ++ " " ++ right.text)).toList ++
      (right.quotation? (left.text ++ " " ++ operatorWord op ++ " ") "").toList
  | contains reference caseless text =>
    [⟨"contains(" ++ searchSubject reference caseless ++ ",", true, text, ")"⟩]
  | intersects reference kind shape =>
    [.ofShape ("geo.intersects(" ++ reference.text ++ ",") kind shape ")"]
  | distance reference kind shape op limit =>
    [.ofShape ("geo.distance(" ++ reference.text ++ ",") kind shape
      (") " ++ operatorWord op ++ " " ++ Decimal.FloatFormat.plain.text limit)]
  | isOf subject typeName => [⟨"isof(" ++ subjectText subject, true, typeName, ")"⟩]
  | group .. | not _ | quantified .. | const _ => []

end Expression

/-- A quoted text between other texts is written as a quotation. -/
theorem whole_quote (front text back : String) :
    (front ++ Text.quote text ++ back).toList = (Quotation.mk front true text back).whole := by
  simp [Text.quote, Quotation.whole, Quotation.rest, Quotation.body]

/-- So is a shape. -/
theorem whole_ofShape (front : String) (kind : ShapeKind) (shape back : String) :
    (front ++ Expression.shapeText kind shape ++ back).toList =
      (Quotation.ofShape front kind shape back).whole := by
  simp [Expression.shapeText, Quotation.ofShape, Quotation.whole, Quotation.rest, Quotation.body]

/-- So is a side with a quotation. -/
theorem whole_of_quotation? {side : Side} {front back : String} {quotation : Quotation}
    (h : side.quotation? front back = some quotation) :
    (front ++ side.text ++ back).toList = quotation.whole ∧ quotation.doubled = true ∧
      quotation.back = back := by
  cases side with
  | reference reference dateOnly => cases h
  | literal content =>
    cases content with
    | bare text => cases h
    | quoted text =>
      obtain rfl := Option.some.inj h
      exact ⟨whole_quote front text back, rfl, rfl⟩
    | enumeration typeName text =>
      obtain rfl := Option.some.inj h
      refine ⟨?_, rfl, rfl⟩
      rw [← whole_quote, Side.text, Literal.text, ← String.append_assoc]

namespace Expression

/-- The expressions that test a shape. -/
def testsShape : Expression → Bool
  | intersects .. | distance .. => true
  | _ => false

/-- The text of an expression is that of each of its quotations. Only shapes are not doubled, and
no apostrophe stands behind the closing one. -/
theorem whole_of_mem_quotations {expression : Expression} {quotation : Quotation}
    (h : quotation ∈ expression.quotations) (nested : Bool) :
    (expression.textWithin nested).toList = quotation.whole ∧
      quotation.doubled = !expression.testsShape ∧ quotation.back.toList.head? ≠ some '\'' := by
  cases expression with
  | comparison left op right =>
    have htext : (comparison left op right).textWithin nested =
        left.text ++ " " ++ operatorWord op ++ " " ++ right.text := rfl
    rcases List.mem_append.mp h with hleft | hright
    · obtain ⟨hwhole, hdoubled, hback⟩ := whole_of_quotation? (Option.mem_toList.mp hleft)
      refine ⟨?_, hdoubled, ?_⟩
      · rw [htext, ← hwhole]
        simp only [String.empty_append, String.append_assoc]
      · rw [hback]
        simp [String.toList_append]
    · obtain ⟨hwhole, hdoubled, hback⟩ := whole_of_quotation? (Option.mem_toList.mp hright)
      refine ⟨?_, hdoubled, ?_⟩
      · rw [htext, ← hwhole, String.append_empty]
      · rw [hback]
        simp
  | contains reference caseless text =>
    obtain rfl := List.mem_singleton.mp h
    exact ⟨whole_quote _ text ")", rfl, by simp⟩
  | intersects reference kind shape =>
    obtain rfl := List.mem_singleton.mp h
    refine ⟨?_, rfl, by simp [Quotation.ofShape]⟩
    rw [← whole_ofShape]
    rfl
  | distance reference kind shape op limit =>
    have htext : (distance reference kind shape op limit).textWithin nested =
        "geo.distance(" ++ reference.text ++ "," ++ shapeText kind shape ++ ") " ++
          operatorWord op ++ " " ++ Decimal.FloatFormat.plain.text limit := rfl
    obtain rfl := List.mem_singleton.mp h
    refine ⟨?_, rfl, by simp [Quotation.ofShape]⟩
    rw [← whole_ofShape, htext]
    simp only [String.append_assoc]
  | isOf subject typeName =>
    obtain rfl := List.mem_singleton.mp h
    exact ⟨whole_quote _ typeName ")", rfl, by simp⟩
  | group connective members | not body | quantified reference quantifier bound body
  | const verdict => cases h

end Expression

namespace Context

variable {context : Context} {scope : Scope}

/-- The caller gives a text that a leaf puts between apostrophes: a literal against a field that
quotes texts or against another literal, the searched text, a shape, or the name of a type. -/
inductive Supplies (context : Context) (scope : Scope) : Predicate → String → Prop where
  /-- A literal on the left. -/
  | left {text : String} {op : Comparison} {right : Operand} {resolved : Resolved}
      (hresolved : context.resolveOperand scope (.literal (.string text)) right = .ok resolved)
      (hquotes : ∀ field, resolved.field? = some field → field.quotesTexts = true) :
      Supplies context scope (.compare (.literal (.string text)) op right) text
  /-- A literal on the right. -/
  | right {text : String} {op : Comparison} {left : Operand} {resolved : Resolved}
      (hresolved : context.resolveOperand scope (.literal (.string text)) left = .ok resolved)
      (hquotes : ∀ field, resolved.field? = some field → field.quotesTexts = true) :
      Supplies context scope (.compare left op (.literal (.string text))) text
  /-- A searched text, in small letters if case does not count. -/
  | contains {path text : String} : Supplies context scope (.contains path text)
      (if context.settings.caselessContains then Text.lowercase text else text)
  /-- A shape. -/
  | shape {kind : ShapeKind} {path : String} {test : ShapeTest} :
      Supplies context scope (.shape kind path test) test.subject
  /-- A type name, with its namespace. -/
  | isOf {expression : Option String} {typeName : String} :
      Supplies context scope (.isOf expression typeName) (context.settings.qualify typeName)

/-- A text against a field that quotes texts is quoted. -/
theorem quotation?_of_fieldLiteral {field : Field} (hquotes : field.quotesTexts = true)
    {text : String} {literal : Literal}
    (h : context.fieldLiteral field (.string text) = .ok literal) (front back : String) :
    ∃ quotation, literal.quotation? front back = some quotation ∧ quotation.text = text := by
  have hquoted : ∀ {content : Literal}, content = .quoted text →
      ∃ quotation, content.quotation? front back = some quotation ∧ quotation.text = text := by
    rintro _ rfl
    exact ⟨_, rfl, rfl⟩
  cases field with
  | key entity remoteName type =>
    cases type with
    | string => exact hquoted (Except.ok.inj h).symm
    | guid | number => cases hquotes
  | scalar owner declaration =>
    obtain ⟨name, type, remoteName⟩ := declaration
    cases type with
    | string => exact hquoted (Except.ok.inj h).symm
    | enumeration typeName =>
      obtain rfl := Except.ok.inj h
      exact ⟨_, rfl, rfl⟩
    | number | decimal | boolean | date | guid => cases hquotes
  | related owner declaration => exact hquoted (Except.ok.inj h).symm

/-- A text against such a field, or against another literal, is quoted. -/
theorem quotation?_of_side {resolved : Resolved}
    (hquotes : ∀ field, resolved.field? = some field → field.quotesTexts = true)
    {text : String} {side : Side}
    (h : context.side none resolved (.literal (.string text)) = .ok side) (front back : String) :
    ∃ quotation, side.quotation? front back = some quotation ∧ quotation.text = text := by
  obtain ⟨literal, hliteral, rfl⟩ := map_eq_ok_iff.mp h
  cases hfield : resolved.field? with
  | some field =>
    rw [hfield] at hliteral
    exact quotation?_of_fieldLiteral (hquotes field hfield) hliteral front back
  | none =>
    rw [hfield] at hliteral
    obtain rfl := Except.ok.inj hliteral
    exact ⟨_, rfl, rfl⟩

/-- A type assertion is about the type that is asked for, with its namespace. -/
theorem exists_subject_of_isOfExpression {subject : Option String} {typeName : String}
    {expression : Expression}
    (h : context.isOfExpression scope subject typeName = .ok expression) :
    ∃ asserted, expression = .isOf asserted (context.settings.qualify typeName) := by
  unfold isOfExpression at h
  cases subject with
  | some path =>
    obtain ⟨⟨reference, field⟩, _, h⟩ := bind_eq_ok_iff.mp h
    exact ⟨_, (pure_eq_ok_iff.mp h).symm⟩
  | none =>
    cases hbinder : scope.binder? with
    | none =>
      simp only [hbinder, pure_eq_ok_iff] at h
      exact ⟨_, h.symm⟩
    | some bound =>
      simp only [hbinder, pure_eq_ok_iff] at h
      exact ⟨_, h.symm⟩

/-- A text that the caller gives to a leaf stands in a quotation of its expression. -/
theorem exists_quotation_of_supplies {predicate : Predicate} {expression : Expression}
    {text : String} (hcompiles : context.expressionWithin predicate scope = .ok expression)
    (hsupplies : context.Supplies scope predicate text) :
    ∃ quotation ∈ expression.quotations, quotation.text = text := by
  cases hsupplies with
  | @left _ op right resolved hresolved hquotes =>
    obtain ⟨resolvedLeft, hleft, h⟩ := bind_eq_ok_iff.mp hcompiles
    obtain ⟨resolvedRight, hright, h⟩ := bind_eq_ok_iff.mp h
    obtain ⟨leftSide, hleftSide, h⟩ := bind_eq_ok_iff.mp h
    obtain ⟨rightSide, _, h⟩ := bind_eq_ok_iff.mp h
    obtain rfl := pure_eq_ok_iff.mp h
    obtain rfl := Except.ok.inj hleft
    obtain rfl := Except.ok.inj (hresolved.symm.trans hright)
    obtain ⟨quotation, hquotation, htext⟩ := quotation?_of_side hquotes hleftSide _ _
    exact ⟨quotation, List.mem_append_left _ (Option.mem_toList.mpr hquotation), htext⟩
  | @right _ op left resolved hresolved hquotes =>
    obtain ⟨resolvedLeft, hleft, h⟩ := bind_eq_ok_iff.mp hcompiles
    obtain ⟨resolvedRight, hright, h⟩ := bind_eq_ok_iff.mp h
    obtain ⟨leftSide, _, h⟩ := bind_eq_ok_iff.mp h
    obtain ⟨rightSide, hrightSide, h⟩ := bind_eq_ok_iff.mp h
    obtain rfl := pure_eq_ok_iff.mp h
    obtain rfl := Except.ok.inj hright
    obtain rfl := Except.ok.inj (hresolved.symm.trans hleft)
    obtain ⟨quotation, hquotation, htext⟩ := quotation?_of_side hquotes hrightSide _ _
    exact ⟨quotation, List.mem_append_right _ (Option.mem_toList.mpr hquotation), htext⟩
  | contains =>
    obtain ⟨⟨reference, field⟩, _, h⟩ := bind_eq_ok_iff.mp hcompiles
    obtain rfl := pure_eq_ok_iff.mp h
    exact ⟨_, List.mem_singleton_self _, rfl⟩
  | @shape kind path test =>
    obtain ⟨⟨reference, field⟩, _, h⟩ := bind_eq_ok_iff.mp hcompiles
    cases test with
    | intersects shape | distance shape op limit =>
      obtain rfl := pure_eq_ok_iff.mp h
      exact ⟨_, List.mem_singleton_self _, rfl⟩
  | isOf =>
    obtain ⟨subject, rfl⟩ := exists_subject_of_isOfExpression hcompiles
    exact ⟨_, List.mem_singleton_self _, rfl⟩

/-- Shape tests and nothing else become shape tests. -/
theorem testsShape_of_expressionWithin {predicate : Predicate} {expression : Expression}
    (h : context.expressionWithin predicate scope = .ok expression) :
    expression.testsShape = predicate.testsShape := by
  cases predicate with
  | compare left op right | compareDates left op right timeless =>
    obtain ⟨_, _, h⟩ := bind_eq_ok_iff.mp h
    obtain ⟨_, _, h⟩ := bind_eq_ok_iff.mp h
    obtain ⟨_, _, h⟩ := bind_eq_ok_iff.mp h
    obtain ⟨_, _, h⟩ := bind_eq_ok_iff.mp h
    obtain rfl := pure_eq_ok_iff.mp h
    rfl
  | contains path text =>
    obtain ⟨_, _, h⟩ := bind_eq_ok_iff.mp h
    obtain rfl := pure_eq_ok_iff.mp h
    rfl
  | shape kind path test =>
    obtain ⟨_, _, h⟩ := bind_eq_ok_iff.mp h
    cases test <;> obtain rfl := pure_eq_ok_iff.mp h <;> rfl
  | isOf subject typeName =>
    obtain ⟨_, rfl⟩ := exists_subject_of_isOfExpression h
    rfl
  | not body | group connective members =>
    obtain ⟨_, _, h⟩ := bind_eq_ok_iff.mp h
    obtain rfl := pure_eq_ok_iff.mp h
    rfl
  | quantified path quantifier body =>
    obtain ⟨_, _, h⟩ := bind_eq_ok_iff.mp h
    obtain ⟨_, _, h⟩ := bind_eq_ok_iff.mp h
    obtain ⟨_, _, h⟩ := bind_eq_ok_iff.mp h
    obtain rfl := pure_eq_ok_iff.mp h
    rfl
  | const verdict =>
    obtain rfl := Except.ok.inj h
    rfl

/-- Every text that the caller gives to a leaf stands between apostrophes in its filter. Reading
a text between apostrophes from behind the opening one ends at the closing one and gives the
text, except if it is a shape with an apostrophe in it: then it does not. -/
theorem quotations_read_back {predicate : Predicate} {expression : Expression}
    (hcompiles : context.expressionWithin predicate scope = .ok expression) (nested : Bool) :
    (∀ text, context.Supplies scope predicate text →
        ∃ quotation ∈ expression.quotations, quotation.text = text) ∧
      ∀ quotation ∈ expression.quotations, ∃ rest,
        (expression.textWithin nested).toList = quotation.front.toList ++ '\'' :: rest ∧
          (Text.readQuoted rest = some (quotation.text.toList, quotation.back.toList) ↔
            (predicate.testsShape = true → '\'' ∉ quotation.text.toList)) := by
  refine ⟨fun text => exists_quotation_of_supplies hcompiles, fun quotation hquotation => ?_⟩
  obtain ⟨hwhole, hdoubled, hback⟩ := Expression.whole_of_mem_quotations hquotation nested
  refine ⟨quotation.rest, hwhole, ?_⟩
  rw [Quotation.readQuoted_rest_iff hback, hdoubled, testsShape_of_expressionWithin hcompiles]
  cases predicate.testsShape <;> simp

/-- The requests for places, which have a name and a location. -/
def places : Context where
  schema := Schema.ofModels [{
    name := "place"
    attributes := [⟨"name", .string, none⟩, ⟨"location", .string, none⟩] }]
  settings := {}

/-- A name with an apostrophe is read back. -/
theorem quotations_read_back_name :
    ∃ expression quotation,
      places.expressionWithin (.simple "name" .eq (.string "St John's")) (.root "place") =
          .ok expression ∧
        expression.text = "Name eq 'St John''s'" ∧
        quotation ∈ expression.quotations ∧ quotation.text = "St John's" ∧ ∃ rest,
          expression.text.toList = quotation.front.toList ++ '\'' :: rest ∧
            Text.readQuoted rest = some ("St John's".toList, quotation.back.toList) := by
  obtain ⟨expression, hcompiles⟩ : ∃ expression,
      places.expressionWithin (.simple "name" .eq (.string "St John's")) (.root "place") =
        .ok expression := exists_eq_ok_of_isOk (by decide +kernel)
  have htext : (places.expressionWithin (.simple "name" .eq (.string "St John's"))
      (.root "place")).map Expression.text = .ok "Name eq 'St John''s'" := by
    decide +kernel
  rw [hcompiles] at htext
  have hreference : places.reference (.root "place") "name" =
      .ok (⟨none, ["Name"]⟩, .scalar "place" ⟨"name", .string, none⟩) := by
    decide +kernel
  have hresolved : places.resolveOperand (.root "place") (.literal (.string "St John's"))
      (.field "name") =
        .ok (.field ⟨none, ["Name"]⟩ (.scalar "place" ⟨"name", .string, none⟩)) := by
    rw [resolveOperand, hreference]
    rfl
  obtain ⟨hsupplied, hread⟩ := quotations_read_back hcompiles false
  obtain ⟨quotation, hquotation, hsame⟩ := hsupplied "St John's" (.right hresolved (by
    rintro field ⟨⟩
    rfl))
  obtain ⟨rest, hrest, hiff⟩ := hread quotation hquotation
  rw [hsame] at hiff
  exact ⟨expression, quotation, hcompiles, Except.ok.inj htext, hquotation, hsame, rest, hrest,
    hiff.mpr fun hshape => by cases hshape⟩

/-- A shape with an apostrophe in it closes its quotation there, and the rest of it becomes a part
of the filter: what is read is not the shape. -/
theorem shape_closes_itself :
    places.filterText "place"
        (.shape .geography "location" (.intersects "POINT(0 0)') or contains(Name,'a")) =
      .ok "geo.intersects(Location,geography'POINT(0 0)') or contains(Name,'a')" ∧
    Text.readQuoted "POINT(0 0)') or contains(Name,'a')".toList =
      some ("POINT(0 0)".toList, ") or contains(Name,'a')".toList) ∧
    Text.readQuoted "POINT(0 0)') or contains(Name,'a')".toList ≠
      some ("POINT(0 0)') or contains(Name,'a".toList, ")".toList) := by
  refine ⟨?_, ?_, ?_⟩
  · decide +kernel
  · decide
  · decide

end Context

end Remote

end EntityQuery
