import EntityQuery.Proofs.Query.Construction
import EntityQuery.Proofs.Remote.Comparisons

/-!
# What filters mean

A filter that was written for a predicate is read as a formula with the structure of the
predicate: wherever parentheses are left out, the reader does not need them, and no literal
or searched text is read as anything but itself. The induction carries two readings of every
predicate, one as a member of a group and one as a whole filter, since a group has
parentheses only in the first.
-/

namespace EntityQuery

/-- A value that is no instant and is not made of values. -/
def Value.isSimple : Value → Bool
  | null | bool _ | int _ | float _ | string _ => true
  | _ => false

namespace Remote

namespace Expression

/-- A negation has parentheses of its own. -/
theorem textWithin_not (nested : Bool) (body : Expression) :
    textWithin nested (.not body) = "not (" ++ textWithin false body ++ ")" := rfl

/-- At the outermost level the members of a group stand without parentheses. -/
theorem textWithin_group (connective : Connective) (members : List Expression) :
    textWithin false (.group connective members) =
      String.intercalate (" " ++ connective.name ++ " ") (memberTexts members) := rfl

/-- Inside a group there are parentheses around them. -/
theorem textWithin_group_nested (connective : Connective) (members : List Expression) :
    textWithin true (.group connective members) =
      "(" ++ textWithin false (.group connective members) ++ ")" := rfl

/-- A constant is its word. -/
theorem textWithin_const (nested verdict : Bool) :
    textWithin nested (.const verdict) = if verdict then "true" else "false" := by
  cases verdict <;> rfl

/-- The members of a group are inside of it. -/
theorem memberTexts_eq_map (members : List Expression) :
    memberTexts members = members.map (textWithin true) := by
  induction members with
  | nil => rfl
  | cons member members ih =>
    have hcons : memberTexts (member :: members) =
        textWithin true member :: memberTexts members := rfl
    rw [hcons, ih, List.map_cons]

/-- An expression is read with this truth, as a member of a group and as a whole filter. -/
structure Readable (expression : Expression) (truth : Truth) : Prop where
  /-- Its text inside a group is an operand. -/
  operand : IsOperand (expression.textWithin true).toList truth
  /-- Its text is a filter. -/
  filter : IsFilter (expression.textWithin false).toList truth

/-- What is an operand everywhere is a filter, too. -/
theorem readable_of_isOperand {expression : Expression} {truth : Truth}
    (h : ∀ nested, IsOperand (expression.textWithin nested).toList truth) :
    expression.Readable truth :=
  ⟨h true, (h false).isFilter⟩

/-- Constants are read. -/
theorem readable_const (verdict : Bool) :
    Readable (.const verdict) (fun _ => verdict) := by
  apply readable_of_isOperand
  intro nested
  rw [textWithin_const]
  exact isOperand_const verdict

/-- A negation is read as that of what is read. -/
theorem Readable.negated {body : Expression} {truth : Truth} (h : body.Readable truth) :
    Readable (.not body) (fun assignment => !truth assignment) := by
  apply readable_of_isOperand
  intro nested
  have htext : (textWithin nested (.not body)).toList =
      "not".toList ++ (' ' :: ('(' :: (body.textWithin false).toList ++ [')'])) := by
    simp [textWithin_not]
  rw [htext]
  exact h.filter.negated

/-- A group is read as the verdict of its connective on what its members are read as. -/
theorem readable_group (connective : Connective) {parts : List (Expression × Truth)}
    (hne : parts ≠ []) (h : ∀ part ∈ parts, part.1.Readable part.2) :
    Readable (.group connective (parts.map Prod.fst))
      (fun assignment => verdict connective (parts.map fun part => part.2 assignment)) := by
  let texts := parts.map fun part => ((part.1.textWithin true).toList, part.2)
  have hoperands : ∀ text ∈ texts, IsOperand text.1 text.2 := by
    intro text htext
    obtain ⟨part, hpart, rfl⟩ := List.mem_map.mp htext
    exact (h part hpart).operand
  have htexts : texts ≠ [] := by simpa [texts] using hne
  have hjoined := isFilter_joined connective htexts hoperands
  have hvalues : ∀ assignment : String → Bool, (texts.map fun text => text.2 assignment) =
      parts.map fun part => part.2 assignment := by
    intro assignment
    simp [texts]
  have htext : (textWithin false (.group connective (parts.map Prod.fst))).toList =
      List.intercalate (' ' :: connective.name.toList ++ [' ']) (texts.map Prod.fst) := by
    rw [textWithin_group, memberTexts_eq_map, String.toList_intercalate]
    simp [texts, Function.comp_def]
  have hnested : (textWithin true (.group connective (parts.map Prod.fst))).toList =
      '(' :: (textWithin false (.group connective (parts.map Prod.fst))).toList ++ [')'] := by
    simp [textWithin_group_nested]
  simp only [hvalues] at hjoined
  rw [← htext] at hjoined
  refine ⟨?_, hjoined⟩
  rw [hnested]
  exact hjoined.parenthesized

end Expression

namespace Context

section

variable (context : Context) (entityType : String)

/-- A comparison of an attribute with a simple literal. -/
def isSimpleComparison : Operand → Operand → Bool
  | .field path, .literal value | .literal value, .field path =>
    value.isSimple &&
      match context.schema.resolveEnd entityType path with
      | .ok (_, field) => field.attributeType?.any AttributeType.isChecked
      | .error _ => false
  | _, _ => false

mutual

/-- A predicate whose leaves are constants, text searches and comparisons of an attribute
with a simple literal. -/
def isPropositional : Predicate → Bool
  | .compare left _ right => context.isSimpleComparison entityType left right
  | .contains _ _ | .const _ => true
  | .not body => isPropositional body
  | .group _ members => !members.isEmpty && arePropositional members
  | _ => false
termination_by structural predicate => predicate

/-- The leaves of all members are such. -/
def arePropositional : List Predicate → Bool
  | [] => true
  | member :: members => isPropositional member && arePropositional members
termination_by structural members => members

end

/-- The text that a comparison or a search has as a filter of its own. -/
def leafText (leaf : Predicate) : String :=
  (context.filterText entityType leaf).toOption.getD ""

mutual

/-- The truth of a predicate when the truth of every leaf is given with its text. -/
def truth (assignment : String → Bool) : Predicate → Bool
  | .not body => !truth assignment body
  | .group connective members => verdict connective (truths assignment members)
  | .const verdict => verdict
  | leaf => assignment (context.leafText entityType leaf)
termination_by structural predicate => predicate

/-- The truth of every member. -/
def truths (assignment : String → Bool) : List Predicate → List Bool
  | [] => []
  | member :: members => truth assignment member :: truths assignment members
termination_by structural members => members

end

end

variable {context : Context} {entityType : String}

/-- A leaf whose expression is known has its text. -/
theorem leafText_eq {leaf : Predicate} {expression : Expression}
    (h : context.expression entityType leaf = .ok expression) :
    context.leafText entityType leaf = expression.text := by
  rw [leafText, filterText, h]
  rfl

/-- Against a checked type, a simple literal is a term, null among them. -/
theorem isTerm_of_literal (h : context.HasWords) {owner name : String} {field : Field}
    (hfield : context.schema.resolve owner name = .ok field)
    (htype : field.attributeType?.any AttributeType.isChecked = true) {value : Value}
    (hvalue : value.isSimple = true) {literal : Literal}
    (hok : context.literal value (some field) none = .ok literal) : literal.IsTerm := by
  cases hnull : value.isNull with
  | true =>
    simp only [Context.literal, hnull, if_true] at hok
    obtain rfl := Except.ok.inj hok
    exact isWord_null
  | false =>
    simp only [Context.literal, hnull, Bool.false_eq_true, if_false] at hok
    refine isTerm_of_fieldLiteral h hfield htype (fun _ t heq => ?_) hok
    rw [heq] at hvalue
    cases hvalue

/-- The attribute of a simple comparison and its literal have phrases for texts. -/
theorem exists_isPhrase_sides (h : context.HasWords) {path : String} {value : Value}
    (hsimple : context.isSimpleComparison entityType (.field path) (.literal value) = true)
    {resolved : Resolved} {fieldSide literalSide : Side}
    (hresolved : context.resolveOperand (.root entityType) (.literal value) (.field path) =
      .ok resolved)
    (hfieldSide : context.side none (.literal value) resolved = .ok fieldSide)
    (hliteralSide : context.side none resolved (.literal value) = .ok literalSide) :
    (∃ items, IsPhrase fieldSide.text.toList items) ∧
      ∃ items, IsPhrase literalSide.text.toList items := by
  rw [isSimpleComparison, Bool.and_eq_true] at hsimple
  obtain ⟨hvalue, hend⟩ := hsimple
  obtain ⟨reference, field, hreference, hcases⟩ := resolveOperand_field_eq_ok hresolved
  obtain ⟨hbinder, hne, hwords, owner, name, hfield⟩ := reference_eq_ok h hreference
  obtain ⟨⟨chain, last⟩, hchain, hreference⟩ := bind_eq_ok_iff.mp hreference
  obtain ⟨_, rfl⟩ := Prod.mk.inj (pure_eq_ok_iff.mp hreference)
  have hroot : (Scope.root entityType).entityType = entityType := rfl
  rw [hroot] at hchain
  simp only [hchain] at hend
  have hleadsToNoRecord : last.kind ≠ .belongsTo := by
    intro hkind
    cases last with
    | related => simp [Field.attributeType?] at hend
    | _ => cases hkind
  rcases hcases with ⟨_, rfl⟩ | ⟨hkind, _⟩
  · obtain rfl := Except.ok.inj hfieldSide
    obtain ⟨literal, hliteral, rfl⟩ := map_eq_ok_iff.mp hliteralSide
    have hterm := isTerm_of_literal h hfield hend hvalue hliteral
    exact ⟨⟨_, (Reference.isWord_text hbinder hne hwords).isPhrase⟩, hterm.exists_isPhrase⟩
  · exact absurd hkind hleadsToNoRecord

/-- A simple comparison that was written is read as its text. -/
theorem readable_of_comparison (h : context.HasWords) {left right : Operand} {op : Comparison}
    (hsimple : context.isSimpleComparison entityType left right = true)
    {expression : Expression}
    (hok : context.comparison (.root entityType) left op right none = .ok expression) :
    expression.Readable (fun assignment => assignment expression.text) := by
  obtain ⟨resolvedLeft, hresolvedLeft, hok⟩ := bind_eq_ok_iff.mp hok
  obtain ⟨resolvedRight, hresolvedRight, hok⟩ := bind_eq_ok_iff.mp hok
  obtain ⟨leftSide, hleftSide, hok⟩ := bind_eq_ok_iff.mp hok
  obtain ⟨rightSide, hrightSide, hok⟩ := bind_eq_ok_iff.mp hok
  obtain rfl := pure_eq_ok_iff.mp hok
  have hphrases : (∃ items, IsPhrase leftSide.text.toList items) ∧
      ∃ items, IsPhrase rightSide.text.toList items := by
    cases left with
    | field path =>
      cases right with
      | field other => cases hsimple
      | literal value =>
        obtain rfl := Except.ok.inj hresolvedRight
        exact exists_isPhrase_sides h hsimple hresolvedLeft hleftSide hrightSide
    | literal value =>
      cases right with
      | field path =>
        obtain rfl := Except.ok.inj hresolvedLeft
        exact (exists_isPhrase_sides h hsimple hresolvedRight hrightSide hleftSide).symm
      | literal other => cases hsimple
  obtain ⟨⟨leftItems, hleft⟩, rightItems, hright⟩ := hphrases
  exact Expression.readable_of_isOperand fun _ => isOperand_comparison hleft hright

/-- A text search that was written is read as its text. -/
theorem readable_of_containsExpression (h : context.HasWords) {path text : String}
    {expression : Expression}
    (hok : context.containsExpression (.root entityType) path text = .ok expression) :
    expression.Readable (fun assignment => assignment expression.text) := by
  obtain ⟨⟨reference, field⟩, hreference, hok⟩ := bind_eq_ok_iff.mp hok
  obtain rfl := pure_eq_ok_iff.mp hok
  obtain ⟨hbinder, hne, hwords, _⟩ := reference_eq_ok h hreference
  have hword := Reference.isWord_text hbinder hne hwords
  exact Expression.readable_of_isOperand fun _ => isOperand_contains hword _ _

mutual

/-- The expression of a predicate is read with the truth of the predicate. -/
theorem readable_of_expressionWithin (h : context.HasWords) :
    ∀ (predicate : Predicate) {expression : Expression},
      context.isPropositional entityType predicate = true →
        context.expressionWithin predicate (.root entityType) = .ok expression →
          expression.Readable fun assignment => context.truth entityType assignment predicate
  | .compare left op right, expression, hlogical, hok => by
    have hreadable := readable_of_comparison h hlogical hok
    simpa only [truth, leafText_eq hok] using hreadable
  | .contains path text, expression, _, hok => by
    have hreadable := readable_of_containsExpression h hok
    simpa only [truth, leafText_eq hok] using hreadable
  | .const verdict, expression, _, hok => by
    rw [expressionWithin] at hok
    obtain rfl := Except.ok.inj hok
    exact Expression.readable_const verdict
  | .not body, expression, hlogical, hok => by
    obtain ⟨inner, hinner, hok⟩ := bind_eq_ok_iff.mp hok
    obtain rfl := pure_eq_ok_iff.mp hok
    exact (readable_of_expressionWithin h body hlogical hinner).negated
  | .group connective members, expression, hlogical, hok => by
    rw [isPropositional, Bool.and_eq_true] at hlogical
    obtain ⟨expressions, hexpressions, hok⟩ := bind_eq_ok_iff.mp hok
    obtain rfl := pure_eq_ok_iff.mp hok
    obtain ⟨parts, rfl, hreadable, htruths⟩ :=
      readable_of_membersWithin h members hlogical.2 hexpressions
    have hne : parts ≠ [] := by
      rintro rfl
      have hnone := htruths fun _ => true
      cases members with
      | nil => simp at hlogical
      | cons member members => simp [truths] at hnone
    have hgroup := Expression.readable_group connective hne hreadable
    simpa only [truth, htruths] using hgroup

/-- The expressions of the members of a group are read with the truths of the members. -/
theorem readable_of_membersWithin (h : context.HasWords) :
    ∀ (members : List Predicate) {expressions : List Expression},
      context.arePropositional entityType members = true →
        context.membersWithin members (.root entityType) = .ok expressions →
          ∃ parts : List (Expression × Truth), expressions = parts.map Prod.fst ∧
            (∀ part ∈ parts, part.1.Readable part.2) ∧
              ∀ assignment, parts.map (fun part => part.2 assignment) =
                context.truths entityType assignment members
  | [], expressions, _, hok => by
    obtain rfl := Except.ok.inj hok
    exact ⟨[], rfl, by simp, fun _ => rfl⟩
  | member :: members, expressions, hlogical, hok => by
    rw [arePropositional, Bool.and_eq_true] at hlogical
    obtain ⟨first, hfirst, hok⟩ := bind_eq_ok_iff.mp hok
    obtain ⟨others, hothers, hok⟩ := bind_eq_ok_iff.mp hok
    obtain rfl := pure_eq_ok_iff.mp hok
    have hmember := readable_of_expressionWithin h member hlogical.1 hfirst
    obtain ⟨parts, rfl, hreadable, htruths⟩ :=
      readable_of_membersWithin h members hlogical.2 hothers
    refine ⟨(first, fun assignment => context.truth entityType assignment member) :: parts, rfl,
      ?_, fun assignment => ?_⟩
    · intro part hpart
      rcases List.mem_cons.mp hpart with rfl | hpart
      · exact hmember
      · exact hreadable part hpart
    · rw [List.map_cons, htruths, truths]

end

/-- A filter that was written for a predicate is read as a formula over the texts of its
leaves, and has the truth of the predicate whichever leaves hold. -/
theorem exists_formula_of_filterText (h : context.HasWords) {predicate : Predicate}
    (hlogical : context.isPropositional entityType predicate = true) {text : String}
    (hok : context.filterText entityType predicate = .ok text) :
    ∃ formula, readFilter text = some formula ∧
      ∀ assignment, formula.eval assignment = context.truth entityType assignment predicate := by
  obtain ⟨expression, hexpression, rfl⟩ := map_eq_ok_iff.mp hok
  have hreadable := readable_of_expressionWithin h predicate hlogical hexpression
  obtain ⟨items, formula, hscans, hread, htruth⟩ := hreadable.filter
  refine ⟨formula, ?_, htruth⟩
  rw [← hread]
  exact readFilter_of_scans hscans

theorem hasWords_sample : sample.HasWords := by
  refine hasWords_of_requestNames ?_ (by simp [sample])
  intro entry hentry
  simp only [sample, Sample.schema, List.mem_cons, List.not_mem_nil, or_false] at hentry
  rcases hentry with rfl | rfl <;> decide +kernel

/-- A filter with groups inside of groups and a name that could be taken for a part of it. -/
def sampleFilter : Predicate :=
  .group .or [
    .group .and [.simple "name" .eq (.string "O'Hara) or (not"),
      .not (.group .or [.simple "age" .gt (.int 40), .contains "name" "and"])],
    .simple "manager.age" .neq .null, .const false]

/-- The text of that filter. -/
def sampleFilterText : String :=
  "(Name eq 'O''Hara) or (not' and not (Age gt 40 or contains(tolower(Name),'and'))) or " ++
    "Manager/Age ne null or false"

theorem exists_formula_of_sampleFilter :
    sample.HasWords ∧ sample.isPropositional "employee" sampleFilter = true ∧
      sample.filterText "employee" sampleFilter = .ok sampleFilterText ∧
        ∃ formula, readFilter sampleFilterText = some formula ∧
          ∀ assignment, formula.eval assignment =
            sample.truth "employee" assignment sampleFilter := by
  have hlogical : sample.isPropositional "employee" sampleFilter = true := by decide +kernel
  have hok : sample.filterText "employee" sampleFilter = .ok sampleFilterText := by
    decide +kernel
  exact ⟨hasWords_sample, hlogical, hok, exists_formula_of_filterText hasWords_sample hlogical hok⟩

end Context

end Remote

end EntityQuery
