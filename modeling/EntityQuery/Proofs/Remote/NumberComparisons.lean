import EntityQuery.Proofs.Remote.DateComparisons
import EntityQuery.Proofs.Store.Agreement
import EntityQuery.Proofs.Value.Numbers

/-!
# Literals that requests spell alike

A literal of a numeric or boolean attribute is spelled in a request as it is, or without blanks
if it is a text. In memory the kinds of values count: a text compares with no number, and a
whole number with a whole number exactly, but with a double only after rounding. Literals of
one kind, and numbers of both kinds, that requests spell alike pass the same records, unless
the rounding makes a difference.
-/

namespace EntityQuery

/-- A value as a record has it for a numeric or boolean attribute. -/
inductive Value.StoredAs : AttributeType → Value → Prop where
  /-- A number for a number. -/
  | number {value : Value} (h : value.IsNumber) : StoredAs .number value
  /-- A number for a number with fixed places. -/
  | decimal {value : Value} (h : value.IsNumber) : StoredAs .decimal value
  /-- A truth value for a truth value. -/
  | boolean (b : Bool) : StoredAs .boolean (.bool b)

theorem Value.StoredAs.isInstant {type : AttributeType} {value : Value}
    (h : StoredAs type value) : value.isInstant = false := by
  cases h with
  | number h => cases h <;> rfl
  | decimal h => cases h <;> rfl
  | boolean b => rfl

/-- No text compares with a number. -/
theorem Value.IsNumber.compare?_string {value : Value} (h : value.IsNumber) (raw : String) :
    value.compare? (.string raw) = none := by
  cases h <;> rfl

/-- The value is a text. -/
def Value.isText (value : Value) : Bool := value.asString?.isSome

namespace Remote.Context

open Rows

variable {context : Context} {entityType path : String} {reference : Reference} {field : Field}

/-- A literal of a numeric field is a number, which is written as it is, or a text. -/
theorem numericLiteral_eq_ok {value : Value} {literal : Literal}
    (h : numericLiteral field value = .ok literal) :
    value.IsNumber ∧ literal.text = value.text ∨ ∃ raw, value = .string raw := by
  cases value with
  | int n =>
    obtain rfl := Except.ok.inj h
    exact .inl ⟨.int n, rfl⟩
  | float x =>
    obtain rfl := Except.ok.inj h
    exact .inl ⟨.float x, rfl⟩
  | string raw => exact .inr ⟨raw, rfl⟩
  | _ => cases h

/-- A literal of a boolean field is a truth value, which is written as it is, or a text. -/
theorem booleanLiteral_eq_ok {value : Value} {literal : Literal}
    (h : booleanLiteral field value = .ok literal) :
    (∃ b, value = .bool b) ∧ literal.text = value.text ∨ ∃ raw, value = .string raw := by
  cases value with
  | bool b =>
    obtain rfl := Except.ok.inj h
    exact .inl ⟨⟨b, rfl⟩, rfl⟩
  | string raw => exact .inr ⟨raw, rfl⟩
  | _ => cases h

/-- Literals of one kind, and numbers of both kinds, that are written alike for a numeric field
compare alike with a number, as long as rounding makes no difference. -/
theorem compare?_eq_of_numericLiteral {stored first second : Value} {literal literal' : Literal}
    (hstored : stored.IsNumber) (hfirst : numericLiteral field first = .ok literal)
    (hsecond : numericLiteral field second = .ok literal') (htext : literal.text = literal'.text)
    (hkinds : first.isText = second.isText) (hblurs : ¬ Value.Blurs stored first second) :
    stored.compare? first = stored.compare? second := by
  rcases numericLiteral_eq_ok hfirst with ⟨hnumber, hspelled⟩ | ⟨raw, rfl⟩ <;>
    rcases numericLiteral_eq_ok hsecond with ⟨hnumber', hspelled'⟩ | ⟨raw', rfl⟩
  · exact Value.compare?_eq_of_text_eq hstored hnumber hnumber'
      (hspelled.symm.trans (htext.trans hspelled')) hblurs
  · cases hnumber <;> cases hkinds
  · cases hnumber' <;> cases hkinds
  · rw [hstored.compare?_string, hstored.compare?_string]

/-- Literals of one kind that are written alike for a boolean field compare alike with a truth
value. -/
theorem compare?_eq_of_booleanLiteral {b : Bool} {first second : Value}
    {literal literal' : Literal} (hfirst : booleanLiteral field first = .ok literal)
    (hsecond : booleanLiteral field second = .ok literal') (htext : literal.text = literal'.text)
    (hkinds : first.isText = second.isText) :
    (Value.bool b).compare? first = (Value.bool b).compare? second := by
  rcases booleanLiteral_eq_ok hfirst with ⟨⟨c, rfl⟩, hspelled⟩ | ⟨raw, rfl⟩ <;>
    rcases booleanLiteral_eq_ok hsecond with ⟨⟨c', rfl⟩, hspelled'⟩ | ⟨raw', rfl⟩
  · have htexts := hspelled.symm.trans (htext.trans hspelled')
    have hdiffer : (Value.bool true).text ≠ (Value.bool false).text := by decide
    cases c <;> cases c'
    · rfl
    · exact absurd htexts.symm hdiffer
    · exact absurd htexts hdiffer
    · rfl
  · cases hkinds
  · cases hkinds
  · rfl

/-- What is written for a numeric or boolean field is no instant. -/
theorem isInstant_of_fieldLiteral {type : AttributeType} {stored value : Value}
    {literal : Literal} (hstored : Value.StoredAs type stored)
    (htype : field.attributeType? = some type)
    (h : context.fieldLiteral field value = .ok literal) : value.isInstant = false := by
  cases value with
  | instant t =>
    rw [fieldLiteral, htype] at h
    cases hstored <;> cases h
  | _ => rfl

/-- Literals of one kind, and numbers of both kinds, that requests spell alike compare alike with
what a record has, as long as rounding makes no difference. -/
theorem compare?_eq_of_fieldLiteral {type : AttributeType} {stored first second : Value}
    {literal literal' : Literal} (hstored : Value.StoredAs type stored)
    (htype : field.attributeType? = some type)
    (hfirst : context.fieldLiteral field first = .ok literal)
    (hsecond : context.fieldLiteral field second = .ok literal')
    (htext : literal.text = literal'.text) (hkinds : first.isText = second.isText)
    (hblurs : ¬ Value.Blurs stored first second) :
    stored.compare? first = stored.compare? second := by
  rw [fieldLiteral, htype] at hfirst hsecond
  cases hstored with
  | number h => exact compare?_eq_of_numericLiteral h hfirst hsecond htext hkinds hblurs
  | decimal h => exact compare?_eq_of_numericLiteral h hfirst hsecond htext hkinds hblurs
  | boolean b => exact compare?_eq_of_booleanLiteral hfirst hsecond htext hkinds

/-- Two literals of a numeric or boolean attribute for which a comparison has one filter text
pass the same records in memory if both are texts or neither is one, except on a whole number
that one literal is told from and the other, a double, is not. -/
theorem literals_spelled_alike_agree {type : AttributeType}
    (hpath : context.reference (.root entityType) path = .ok (reference, field))
    (htype : field.attributeType? = some type) (op : Comparison) {first second : Value}
    (hfirst : first.isNull = false) (hsecond : second.isNull = false) {text : String}
    (htext : context.filterText entityType (.simple path op first) = .ok text)
    (htext' : context.filterText entityType (.simple path op second) = .ok text)
    (hkinds : first.isText = second.isText) :
    ∃ segments test test', Schema.pathSegments path = .ok segments ∧
      Test.ofPredicate context.schema (.simple path op first) entityType = .ok test ∧
      Test.ofPredicate context.schema (.simple path op second) entityType = .ok test' ∧
      ∀ (dates : DateStyle) (record : Record), Value.StoredAs type (record.read segments) →
        ¬ Value.Blurs (record.read segments) first second →
        test.passes dates record = test'.passes dates record := by
  obtain ⟨segments, hsegments, htest⟩ := exists_test_of_reference hpath
  refine ⟨segments, _, _, hsegments, htest op first .values, htest op second .values, ?_⟩
  intro dates record hstored hblurs
  have hresolved : ∀ value, context.resolveOperand (.root entityType) (.literal value)
      (.field path) = .ok (.field reference field) :=
    fun value => resolveOperand_of_attribute (.literal value) hpath htype
  rw [filterText_simple hfirst (hresolved first)] at htext
  rw [filterText_simple hsecond (hresolved second)] at htext'
  obtain ⟨literal, hliteral, hspelled⟩ := map_eq_ok_iff.mp htext
  obtain ⟨literal', hliteral', hspelled'⟩ := map_eq_ok_iff.mp htext'
  have hsame : literal.text = literal'.text := by
    have happend := hspelled.trans hspelled'.symm
    exact String.append_right_inj _ |>.mp happend
  have hunfold : ∀ value, (Test.compare (.path segments) op (.fixed value) .values).passes dates
      record = Reading.values.holds dates (record.read segments) op value := fun _ => rfl
  have hcompare := compare?_eq_of_fieldLiteral hstored htype hliteral hliteral' hsame hkinds hblurs
  rw [hunfold, hunfold,
    Store.holds_values dates op hstored.isInstant
      (isInstant_of_fieldLiteral hstored htype hliteral),
    Store.holds_values dates op hstored.isInstant
      (isInstant_of_fieldLiteral hstored htype hliteral'), hcompare]

/-- The age of thirty years as a whole number and as a double. -/
theorem ages_spelled_alike_agree :
    ∃ test test',
      Test.ofPredicate sample.schema (.simple "age" .geq (.int 30)) "employee" = .ok test ∧
      Test.ofPredicate sample.schema
        (.simple "age" .geq (.float (Float.ofBits 0x403E000000000000))) "employee" = .ok test' ∧
      sample.filterText "employee" (.simple "age" .geq (.int 30)) = .ok "Age ge 30" ∧
      sample.filterText "employee"
        (.simple "age" .geq (.float (Float.ofBits 0x403E000000000000))) = .ok "Age ge 30" ∧
      test.passes .standard [("age", .int 31)] = test'.passes .standard [("age", .int 31)] := by
  have hpath : sample.reference (.root "employee") "age" =
      .ok (⟨none, ["Age"]⟩, .scalar "employee" ⟨"age", .number, none⟩) := by decide +kernel
  have htext : sample.filterText "employee" (.simple "age" .geq (.int 30)) =
      .ok "Age ge 30" := by decide +kernel
  have htext' : sample.filterText "employee"
      (.simple "age" .geq (.float (Float.ofBits 0x403E000000000000))) = .ok "Age ge 30" := by
    decide +kernel
  have hsegments : Schema.pathSegments "age" = .ok ["age"] := by decide +kernel
  obtain ⟨segments, test, test', hsame, htest, htest', hagree⟩ :=
    literals_spelled_alike_agree hpath rfl .geq rfl rfl htext htext' rfl
  obtain rfl := Except.ok.inj (hsegments.symm.trans hsame)
  refine ⟨test, test', htest, htest', htext, htext', hagree .standard _ (.number (.int 31)) ?_⟩
  rintro ⟨m, n, x, hm, hne, hrank, ⟨hn, -⟩ | ⟨hn, -⟩⟩
  · obtain rfl := Value.int.inj hm
    obtain rfl := Value.int.inj hn
    have hdiffer : Decimal.rank (Value.floatOfInt 31) ≠ Decimal.rank (Value.floatOfInt 30) := by
      decide +kernel
    exact hdiffer hrank
  · cases hn

/-- Texts are spelled like numbers in requests, and no number is equal to one in memory. A whole
number and the double that is nearest to it are spelled alike, and another whole number with
the same nearest double is equal only to the double. -/
theorem ages_spelled_alike_differ :
    sample.filterText "employee" (.simple "age" .eq (.int 30)) = .ok "Age eq 30" ∧
      sample.filterText "employee" (.simple "age" .eq (.string "30")) = .ok "Age eq 30" ∧
      (Test.ofPredicate sample.schema (.simple "age" .eq (.int 30)) "employee").map
        (·.passes .standard [("age", .int 30)]) = .ok true ∧
      (Test.ofPredicate sample.schema (.simple "age" .eq (.string "30")) "employee").map
        (·.passes .standard [("age", .int 30)]) = .ok false ∧
      sample.filterText "employee" (.simple "age" .eq (.int 1152921504606847000)) =
        .ok "Age eq 1152921504606847000" ∧
      sample.filterText "employee"
          (.simple "age" .eq (.float (Float.ofBits 0x43B0000000000000))) =
        .ok "Age eq 1152921504606847000" ∧
      (Test.ofPredicate sample.schema (.simple "age" .eq (.int 1152921504606847000))
        "employee").map (·.passes .standard [("age", .int 1152921504606846976)]) = .ok false ∧
      (Test.ofPredicate sample.schema
        (.simple "age" .eq (.float (Float.ofBits 0x43B0000000000000)))
        "employee").map (·.passes .standard [("age", .int 1152921504606846976)]) = .ok true := by
  refine ⟨?_, ?_, ?_, ?_, ?_, ?_, ?_, ?_⟩
  all_goals decide +kernel

end Remote.Context

end EntityQuery
