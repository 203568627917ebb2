import EntityQuery.Proofs.Predicate.Validity
import EntityQuery.Proofs.Remote.Acceptance
import EntityQuery.Proofs.Remote.Containment
import EntityQuery.Proofs.Schema.Faults

/-!
# What a valid filter can fail with

A predicate is checked before it is used, by tests of paths, groups and dates that are not those
of the two engines. What passes the check meets none of the faults that it is there to find: in
memory only lookups fail, and type assertions; for a service lookups fail, and literals that do not
fit the field on the other side. A date is refused only where a plain comparison puts a value that
is no date against an attribute that is declared as a date.
-/

namespace EntityQuery

namespace Predicate

/-- A plain comparison of an attribute declared as a date with a value, written so, that is no
date. -/
def ComparesWithNoDate (schema : Schema) (text : String) (type : String) (left right : Operand) :
    Prop :=
  ∃ path value chain field,
    (left = .field path ∧ right = .literal value ∨ left = .literal value ∧ right = .field path) ∧
      schema.resolveEnd type path = .ok (chain, field) ∧ field.attributeType? = some .date ∧
      value.isNull = false ∧ DateStyle.standard.read? value = none ∧ value.text = text

/-- It does not matter which operand is the attribute. -/
theorem ComparesWithNoDate.symm {schema : Schema} {text type : String} {left right : Operand}
    (h : ComparesWithNoDate schema text type left right) :
    ComparesWithNoDate schema text type right left := by
  obtain ⟨path, value, chain, field, hsides, hrest⟩ := h
  exact ⟨path, value, chain, field, hsides.symm.imp And.symm And.symm, hrest⟩

mutual

/-- Such a comparison stands in a predicate on the records of a type. -/
def RefusesDate (schema : Schema) (text : String) : Predicate → String → Prop
  | compare left _ right, type => ComparesWithNoDate schema text type left right
  | group _ members, type => RefusesDateAmong schema text members type
  | quantified path _ body, type => ∃ collection,
      schema.resolveCollection type path = .ok collection ∧
        RefusesDate schema text body collection.target
  | not body, type => RefusesDate schema text body type
  | compareDates .., _ | contains .., _ | shape .., _ | isOf .., _ | const _, _ => False
termination_by structural predicate => predicate

/-- Such a comparison stands in one of some predicates. -/
def RefusesDateAmong (schema : Schema) (text : String) : List Predicate → String → Prop
  | [], _ => False
  | member :: members, type =>
    RefusesDate schema text member type ∨ RefusesDateAmong schema text members type
termination_by structural members => members

end

end Predicate

namespace Rows

variable {schema : Schema} {type : String}

/-- A checked path is looked up for tests. -/
theorem failsOnly_checkedPath {path : String} (hpath : Predicate.checkPath path = .ok ()) :
    FailsOnly (·.endsLookup = true) (checkedPath schema type path) := by
  obtain ⟨segments, hsegments⟩ := Predicate.checkPath_eq_ok_iff.mp hpath
  refine (Schema.failsOnly_resolvePath hpath).bind fun _ _ => ?_
  rw [hsegments]
  exact .result

/-- A checked operand is looked up for tests. -/
theorem Source.failsOnly_ofOperand {operand : Operand}
    (h : Predicate.checkOperand operand = .ok ()) :
    FailsOnly (·.endsLookup = true) (Source.ofOperand schema type operand) := by
  cases operand with
  | field path => exact (failsOnly_checkedPath h).map Source.path
  | literal value => exact .result

/-- A comparison of checked operands is looked up for tests. -/
theorem Test.failsOnly_ofComparison {left right : Operand} {op : Comparison} {reading : Reading}
    (hleft : Predicate.checkOperand left = .ok ())
    (hright : Predicate.checkOperand right = .ok ()) :
    FailsOnly (·.endsLookup = true) (Test.ofComparison schema type left op right reading) :=
  (Source.failsOnly_ofOperand hleft).bind fun _ _ =>
    (Source.failsOnly_ofOperand hright).bind fun _ _ => .result

/-- What a valid predicate can fail with in memory: a lookup, or a type assertion in it. -/
def EndsTest (asserts : Prop) (fault : Fault) : Prop :=
  fault.endsLookup = true ∨
    asserts ∧ ∃ expression typeName,
      fault = .unsupportedPredicate engineName (Predicate.isOf expression typeName).kind

/-- A part of a predicate fails as the predicate may. -/
theorem EndsTest.imp {part whole : Prop} (h : part → whole) {fault : Fault}
    (hfault : EndsTest part fault) : EndsTest whole fault := by
  rcases hfault with hlookup | ⟨hpart, hkind⟩
  · exact .inl hlookup
  · exact .inr ⟨h hpart, hkind⟩

mutual

/-- A valid predicate has a test, unless a lookup fails or it asserts a type. -/
theorem Test.failsOnly_ofPredicate :
    ∀ (predicate : Predicate) {type : String}, predicate.validate = .ok () →
      FailsOnly (EndsTest ¬predicate.EveryLeaf (fun leaf => leaf.assertsType = false))
        (Test.ofPredicate schema predicate type)
  | .compare left op right, type, h => by
    obtain ⟨hleft, hright⟩ := Predicate.validate_compare_iff.mp h
    exact (Test.failsOnly_ofComparison hleft hright).imp fun _ => .inl
  | .compareDates left op right timeless, type, h => by
    obtain ⟨⟨hleft, hright⟩, _⟩ := Predicate.validate_compareDates_iff.mp h
    exact (Test.failsOnly_ofComparison hleft hright).imp fun _ => .inl
  | .contains path text, type, h =>
    ((failsOnly_checkedPath h).imp fun _ => .inl).bind fun _ _ => .result
  | .shape kind path test, type, _ => .result
  | .isOf expression typeName, type, _ =>
    .fault (.inr ⟨Bool.noConfusion, expression, typeName, rfl⟩)
  | .const verdict, type, _ => .result
  | .not body, type, h => (Test.failsOnly_ofPredicate body h).bind fun _ _ => .result
  | .group connective members, type, h =>
    (Test.failsOnly_ofMembers members (Predicate.validate_group_iff.mp h).2).bind
      fun _ _ => .result
  | .quantified path quantifier body, type, h => by
    obtain ⟨hpath, hbody⟩ := Predicate.validate_quantified_iff.mp h
    refine ((Schema.failsOnly_resolveCollection hpath).imp fun _ => .inl).bind
      fun collection _ => ?_
    refine ((failsOnly_checkedPath hpath).imp fun _ => .inl).bind fun segments _ => ?_
    exact (Test.failsOnly_ofPredicate body hbody).bind fun _ _ => .result

/-- Valid members have tests, unless a lookup fails or one of them asserts a type. -/
theorem Test.failsOnly_ofMembers :
    ∀ (members : List Predicate) {type : String},
      (∀ member ∈ members, member.validate = .ok ()) →
        FailsOnly (EndsTest ¬Predicate.EveryLeafOf (fun leaf => leaf.assertsType = false) members)
          (Test.ofMembers schema members type)
  | [], type, _ => .result
  | member :: members, type, h => by
    obtain ⟨hmember, hmembers⟩ := List.forall_mem_cons.mp h
    refine FailsOnly.bind ?first fun _ _ => FailsOnly.bind ?others fun _ _ => .result
    case first =>
      exact (Test.failsOnly_ofPredicate member hmember).imp
        fun _ => EndsTest.imp fun hasserts hall => hasserts hall.1
    case others =>
      exact (Test.failsOnly_ofMembers members hmembers).imp
        fun _ => EndsTest.imp fun hasserts hall => hasserts hall.2

end

end Rows

namespace Remote

/-- What a valid predicate can fail with for a service: a lookup, or a literal that does not fit;
a date is refused under a condition on its text. -/
def EndsFilter (refuses : String → Prop) (fault : Fault) : Prop :=
  fault.endsLookup = true ∨
    fault.refusesLiteral = true ∧ ∀ text, fault = .invalidDate text → refuses text

/-- A part of a predicate fails as the predicate may. -/
theorem EndsFilter.imp {part whole : String → Prop} (h : ∀ text, part text → whole text)
    {fault : Fault} (hfault : EndsFilter part fault) : EndsFilter whole fault := by
  rcases hfault with hlookup | ⟨hliteral, hdate⟩
  · exact .inl hlookup
  · exact .inr ⟨hliteral, fun text htext => h text (hdate text htext)⟩

namespace Context

variable {context : Context} {scope : Scope}

/-- A checked path is looked up for references. -/
theorem failsOnly_reference {path : String} (hpath : Predicate.checkPath path = .ok ()) :
    FailsOnly (·.endsLookup = true) (context.reference scope path) :=
  (Schema.failsOnly_resolveEnd hpath).bind fun _ _ => .result

/-- A checked operand is looked up for the service, with the key that it may stand for. -/
theorem failsOnly_resolveOperand {operand : Operand} (other : Operand)
    (h : Predicate.checkOperand operand = .ok ()) :
    FailsOnly (·.endsLookup = true) (context.resolveOperand scope other operand) := by
  cases operand with
  | literal value => exact .result
  | field path =>
    refine (failsOnly_reference h).bind fun ⟨reference, field⟩ _ => ?_
    by_cases hkey : field.kind = .belongsTo ∧ isSolidLiteral other = true
    · simp only [hkey, and_self, if_true]
      exact (Schema.failsOnly_key _ _).bind fun _ _ => .result
    · simp only [hkey, if_false]
      exact .result

/-- A resolved attribute that is declared as a date is the field at the end of its path: a key
that stands for a related record is no date. -/
theorem exists_end_of_resolveOperand {operand other : Operand} {resolved : Resolved} {field : Field}
    (h : context.resolveOperand scope other operand = .ok resolved)
    (hfield : resolved.field? = some field) (hdate : field.attributeType? = some .date) :
    ∃ path chain, operand = .field path ∧
      context.schema.resolveEnd scope.entityType path = .ok (chain, field) := by
  cases operand with
  | literal value =>
    obtain rfl := Except.ok.inj h
    cases hfield
  | field path =>
    obtain ⟨reference, found, hreference, ⟨_, rfl⟩ | ⟨_, _, key, hkey, rfl⟩⟩ :=
      resolveOperand_field_eq_ok h
    · obtain rfl := Option.some.inj hfield
      obtain ⟨⟨chain, last⟩, hend, hlast⟩ := bind_eq_ok_iff.mp hreference
      obtain ⟨_, rfl⟩ := Prod.mk.inj (pure_eq_ok_iff.mp hlast)
      exact ⟨path, chain, rfl, hend⟩
    · obtain rfl := Option.some.inj hfield
      obtain ⟨remoteName, keyType, rfl⟩ := Schema.key_eq_ok hkey
      cases hdate

/-- A number is not refused as a date. -/
theorem numericLiteral_ne_invalidDate {field : Field} {value : Value} {text : String} :
    numericLiteral field value ≠ .error (.invalidDate text) := by
  intro h
  cases value with
  | int n => cases h
  | float x => cases h
  | string raw =>
    by_cases hnumber : Decimal.isFiniteNumber (Text.trim raw) = true
    · simp [numericLiteral, hnumber] at h
    · simp [numericLiteral, hnumber] at h
  | null | bool b | instant t | list items | record fields => cases h

/-- A truth value is not refused as a date. -/
theorem booleanLiteral_ne_invalidDate {field : Field} {value : Value} {text : String} :
    booleanLiteral field value ≠ .error (.invalidDate text) := by
  intro h
  cases value with
  | bool b => cases h
  | string raw =>
    simp only [booleanLiteral] at h
    by_cases hword : Text.lowercaseAscii (Text.trim raw) = "true" ∨
        Text.lowercaseAscii (Text.trim raw) = "false"
    · simp [hword] at h
    · simp [hword] at h
  | null | int n | float x | instant t | list items | record fields => cases h

/-- Without a declared type nothing is refused as a date. -/
theorem plainLiteral_ne_invalidDate {value : Value} {text : String} :
    context.plainLiteral value ≠ .error (.invalidDate text) := by
  intro h
  cases value <;> cases h

/-- A value is refused as a date if it is none. -/
theorem read?_of_dateLiteral {value : Value} {dateOnly : Bool} {text : String}
    (h : context.dateLiteral value dateOnly = .error (.invalidDate text)) :
    context.dates.read? value = none ∧ value.text = text := by
  unfold dateLiteral at h
  cases hread : context.dates.read? value with
  | some t => simp [hread] at h
  | none => simpa [hread] using h

/-- Only a field that is declared as a date refuses a plain value as a date. -/
theorem isDate_of_fieldLiteral {field : Field} {value : Value} {text : String}
    (h : context.fieldLiteral field value = .error (.invalidDate text)) :
    field.attributeType? = some .date ∧ context.dates.read? value = none ∧ value.text = text := by
  unfold fieldLiteral at h
  cases htype : field.attributeType? with
  | some type =>
    rw [htype] at h
    cases type with
    | enumeration typeName => cases h
    | guid => cases h
    | date => exact ⟨rfl, read?_of_dateLiteral h⟩
    | number | decimal => exact absurd h numericLiteral_ne_invalidDate
    | boolean => exact absurd h booleanLiteral_ne_invalidDate
    | string => exact absurd h plainLiteral_ne_invalidDate
  | none =>
    simp only [htype] at h
    cases hkey : field.keyType? with
    | some type => simp [hkey] at h
    | none =>
      simp only [hkey] at h
      exact absurd h plainLiteral_ne_invalidDate

/-- A side is refused as a date if it is a value, not null, that is not read as one: in a
comparison of dates, or against a field that is declared as a date. -/
theorem exists_value_of_side {timeless : Option Bool} {other resolved : Resolved} {text : String}
    (h : context.side timeless other resolved = .error (.invalidDate text)) :
    ∃ value, resolved = .literal value ∧ value.isNull = false ∧
      context.dates.read? value = none ∧ value.text = text ∧
        (timeless = none → ∃ field, other.field? = some field ∧
          field.attributeType? = some .date) := by
  cases resolved with
  | field reference deciding => cases h
  | literal value =>
    replace h := map_eq_error_iff.mp h
    unfold literal at h
    by_cases hnull : value.isNull = true
    · simp [hnull] at h
    rw [if_neg hnull] at h
    rw [Bool.not_eq_true] at hnull
    cases timeless with
    | some dateOnly =>
      obtain ⟨hread, htext⟩ := read?_of_dateLiteral h
      exact ⟨value, rfl, hnull, hread, htext, nofun⟩
    | none =>
      cases hfield : other.field? with
      | none =>
        rw [hfield] at h
        exact absurd h plainLiteral_ne_invalidDate
      | some field =>
        rw [hfield] at h
        obtain ⟨hdate, hread, htext⟩ := isDate_of_fieldLiteral h
        exact ⟨value, rfl, hnull, hread, htext, fun _ => ⟨field, rfl, hdate⟩⟩

/-- What is resolved to a value is that value. -/
theorem eq_literal_of_resolveOperand {other operand : Operand} {value : Value}
    (h : context.resolveOperand scope other operand = .ok (.literal value)) :
    operand = .literal value := by
  cases operand with
  | literal same =>
    obtain rfl := Resolved.literal.inj (Except.ok.inj h)
    rfl
  | field path =>
    obtain ⟨_, _, _, ⟨_, hfield⟩ | ⟨_, _, _, _, hfield⟩⟩ := resolveOperand_field_eq_ok h
    · cases hfield
    · cases hfield

/-- A side of a comparison fails as a valid predicate may. Values that were checked as dates are
read as such, so it takes a field that is declared as one on the other side. -/
theorem failsOnly_side (hdates : context.dates = .standard) {timeless : Option Bool}
    {other operand : Operand} {resolvedOther resolved : Resolved}
    (hother : context.resolveOperand scope operand other = .ok resolvedOther)
    (hresolved : context.resolveOperand scope other operand = .ok resolved)
    (hchecked : timeless ≠ none → Predicate.checkDateOperand operand = .ok ()) :
    FailsOnly
      (EndsFilter fun text => timeless = none ∧
        Predicate.ComparesWithNoDate context.schema text scope.entityType other operand)
      (context.side timeless resolvedOther resolved) := by
  intro fault hfault
  refine .inr ⟨refusesLiteral_of_side hfault, ?_⟩
  rintro text rfl
  obtain ⟨value, rfl, hnull, hread, htext, hdeclared⟩ := exists_value_of_side hfault
  obtain rfl := eq_literal_of_resolveOperand hresolved
  rw [hdates] at hread
  have htimeless : timeless = none := by
    by_contra hsome
    have hvalue := hchecked hsome
    cases value <;> simp_all [Predicate.checkDateOperand, Value.isNull]
  obtain ⟨field, hfield, hdate⟩ := hdeclared htimeless
  obtain ⟨path, chain, rfl, hend⟩ := exists_end_of_resolveOperand hother hfield hdate
  exact ⟨htimeless, path, value, chain, field, .inl ⟨rfl, rfl⟩, hend, hdate, hnull, hread, htext⟩

/-- A comparison of checked operands fails as a valid predicate may. -/
theorem failsOnly_comparison (hdates : context.dates = .standard) {timeless : Option Bool}
    {left right : Operand} {op : Comparison}
    (hleft : Predicate.checkOperand left = .ok ())
    (hright : Predicate.checkOperand right = .ok ())
    (hchecked : timeless ≠ none →
      Predicate.checkDateOperand left = .ok () ∧ Predicate.checkDateOperand right = .ok ()) :
    FailsOnly
      (EndsFilter fun text => timeless = none ∧
        Predicate.ComparesWithNoDate context.schema text scope.entityType left right)
      (context.comparison scope left op right timeless) := by
  refine ((failsOnly_resolveOperand right hleft).imp fun _ => .inl).bind
    fun resolvedLeft hresolvedLeft => ?_
  refine ((failsOnly_resolveOperand left hright).imp fun _ => .inl).bind
    fun resolvedRight hresolvedRight => ?_
  refine FailsOnly.bind ?_ fun _ _ => FailsOnly.bind ?_ fun _ _ => .result
  · refine (failsOnly_side hdates hresolvedRight hresolvedLeft fun h => (hchecked h).1).imp
      fun _ => EndsFilter.imp fun text ⟨hnone, hcompares⟩ => ⟨hnone, hcompares.symm⟩
  · exact failsOnly_side hdates hresolvedLeft hresolvedRight fun h => (hchecked h).2

/-- A shape test with a checked path fails as lookups do. -/
theorem failsOnly_shapeExpression {kind : ShapeKind} {path : String} {test : ShapeTest}
    (hpath : Predicate.checkPath path = .ok ()) :
    FailsOnly (·.endsLookup = true) (context.shapeExpression scope kind path test) := by
  refine (failsOnly_reference hpath).bind fun _ _ => ?_
  cases test <;> exact .result

/-- A valid type assertion fails as lookups do. -/
theorem failsOnly_isOfExpression {expression : Option String} {typeName : String}
    (h : (Predicate.isOf expression typeName).validate = .ok ()) :
    FailsOnly (·.endsLookup = true) (context.isOfExpression scope expression typeName) := by
  cases expression with
  | some path =>
    exact (failsOnly_reference (Predicate.checkPath_of_validate_isOf h)).bind fun _ _ => .result
  | none =>
    unfold isOfExpression
    cases scope.binder? <;> exact .result

mutual

/-- A valid predicate is put into words, unless a lookup fails or a literal does not fit. -/
theorem failsOnly_expressionWithin (hdates : context.dates = .standard) :
    ∀ (predicate : Predicate) {scope : Scope}, predicate.validate = .ok () →
      FailsOnly
        (EndsFilter fun text => predicate.RefusesDate context.schema text scope.entityType)
        (context.expressionWithin predicate scope)
  | .compare left op right, scope, h => by
    obtain ⟨hleft, hright⟩ := Predicate.validate_compare_iff.mp h
    exact (failsOnly_comparison hdates hleft hright fun hsome => absurd rfl hsome).imp
      fun _ => EndsFilter.imp fun _ => And.right
  | .compareDates left op right timeless, scope, h => by
    obtain ⟨⟨hleft, hright⟩, hchecked⟩ := Predicate.validate_compareDates_iff.mp h
    exact (failsOnly_comparison hdates hleft hright fun _ => hchecked).imp
      fun _ => EndsFilter.imp fun _ ⟨hnone, _⟩ => nomatch hnone
  | .contains path text, scope, h =>
    ((failsOnly_reference h).imp fun _ => .inl).bind fun _ _ => .result
  | .shape kind path test, scope, h => (failsOnly_shapeExpression h).imp fun _ => .inl
  | .isOf expression typeName, scope, h => (failsOnly_isOfExpression h).imp fun _ => .inl
  | .const verdict, scope, _ => .result
  | .not body, scope, h => (failsOnly_expressionWithin hdates body h).bind fun _ _ => .result
  | .group connective members, scope, h =>
    (failsOnly_membersWithin hdates members (Predicate.validate_group_iff.mp h).2).bind
      fun _ _ => .result
  | .quantified path quantifier body, scope, h => by
    obtain ⟨hpath, hbody⟩ := Predicate.validate_quantified_iff.mp h
    refine ((Schema.failsOnly_resolveCollection hpath).imp fun _ => .inl).bind
      fun collection hcollection => ?_
    refine ((failsOnly_reference hpath).imp fun _ => .inl).bind fun _ _ => ?_
    refine FailsOnly.bind ?_ fun _ _ => .result
    exact (failsOnly_expressionWithin hdates body hbody).imp
      fun _ => EndsFilter.imp fun _ hrefuses => ⟨collection, hcollection, hrefuses⟩

/-- Valid members are put into words, unless a lookup fails or a literal does not fit. -/
theorem failsOnly_membersWithin (hdates : context.dates = .standard) :
    ∀ (members : List Predicate) {scope : Scope},
      (∀ member ∈ members, member.validate = .ok ()) →
        FailsOnly
          (EndsFilter fun text =>
            Predicate.RefusesDateAmong context.schema text members scope.entityType)
          (context.membersWithin members scope)
  | [], scope, _ => .result
  | member :: members, scope, h => by
    obtain ⟨hmember, hmembers⟩ := List.forall_mem_cons.mp h
    refine FailsOnly.bind ?first fun _ _ => FailsOnly.bind ?others fun _ _ => .result
    case first =>
      exact (failsOnly_expressionWithin hdates member hmember).imp
        fun _ => EndsFilter.imp fun _ => Or.inl
    case others =>
      exact (failsOnly_membersWithin hdates members hmembers).imp
        fun _ => EndsFilter.imp fun _ => Or.inr

end

/-- A valid predicate meets none of the faults that its check is there to find. In memory it fails
only in a lookup or, if it asserts a type, because the engine knows no type assertions. For a
service with the standard dates it fails only in a lookup or because of a literal that does not
fit, so with no empty path and no group that is too short; and a date is refused only where a
plain comparison puts a value that is no date against an attribute declared as one. -/
theorem failures_of_valid {predicate : Predicate} (hvalid : predicate.validate = .ok ())
    (type : String) :
    (∀ schema fault, Rows.Test.ofPredicate schema predicate type = .error fault →
      fault.endsLookup = true ∨
        ¬predicate.EveryLeaf (fun leaf => leaf.assertsType = false) ∧
          ∃ expression typeName, fault =
            .unsupportedPredicate Rows.engineName (Predicate.isOf expression typeName).kind) ∧
    ∀ context : Context, context.dates = .standard → ∀ fault,
      context.filterText type predicate = .error fault →
        (fault.endsLookup = true ∨ fault.refusesLiteral = true) ∧
          (∀ path, fault ≠ .emptyPath path) ∧ (∀ count, fault ≠ .tooFewPredicates count) ∧
            ∀ text, fault = .invalidDate text →
              predicate.RefusesDate context.schema text type := by
  refine ⟨fun schema => Rows.Test.failsOnly_ofPredicate predicate hvalid, ?_⟩
  intro context hdates fault hfault
  have hends := failsOnly_expressionWithin hdates predicate hvalid fault
    (map_eq_error_iff.mp hfault)
  refine ⟨hends.imp_right And.left, ?_, ?_, ?_⟩
  · rintro path rfl
    rcases hends with hlookup | ⟨hliteral, _⟩
    · cases hlookup
    · cases hliteral
  · rintro count rfl
    rcases hends with hlookup | ⟨hliteral, _⟩
    · cases hlookup
    · cases hliteral
  · rintro text rfl
    rcases hends with hlookup | ⟨_, hdate⟩
    · cases hlookup
    · exact hdate text rfl

/-- The parcels that are not due before a time that is none. -/
def notDueSoon : Predicate :=
  .group .and [.not (.simple "due" .lt (.string "soon")), .isOf none "parcel"]

theorem failures_of_valid_deliveries :
    notDueSoon.validate = .ok () ∧
      (∃ fault, Rows.Test.ofPredicate deliveries.schema notDueSoon "delivery" = .error fault ∧
        (fault.endsLookup = true ∨
          ¬notDueSoon.EveryLeaf (fun leaf => leaf.assertsType = false) ∧
            ∃ expression typeName, fault =
              .unsupportedPredicate Rows.engineName (Predicate.isOf expression typeName).kind)) ∧
      deliveries.dates = .standard ∧
      deliveries.filterText "delivery" notDueSoon = .error (.invalidDate "soon") ∧
      notDueSoon.RefusesDate deliveries.schema "soon" "delivery" := by
  have hvalid : notDueSoon.validate = .ok () := rfl
  have htest : Rows.Test.ofPredicate deliveries.schema notDueSoon "delivery" =
      .error (.unsupportedPredicate Rows.engineName "is_of") :=
    rfl
  have htext : deliveries.filterText "delivery" notDueSoon = .error (.invalidDate "soon") :=
    rfl
  obtain ⟨hmemory, hremote⟩ := failures_of_valid hvalid "delivery"
  obtain ⟨_, _, _, hdate⟩ := hremote deliveries rfl _ htext
  exact ⟨hvalid, ⟨_, htest, hmemory _ _ htest⟩, rfl, htext, hdate "soon" rfl⟩

end Context

end Remote

end EntityQuery
