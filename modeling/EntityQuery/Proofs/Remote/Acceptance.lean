import EntityQuery.Proofs.Query.Construction
import EntityQuery.Proofs.Remote.Terms
import EntityQuery.Proofs.Schema.Closed
import EntityQuery.Proofs.Schema.Paths
import EntityQuery.Rows.Order

/-!
# What is accepted remotely and in memory

A filter is put into words for a remote service, and it is made into a test of records. Both
look the same paths up in the same order, from the same types, so they accept the same
filters, apart from three things. Only the service knows type assertions, only in memory
shapes are not looked at, and only a service refuses a literal that does not fit. A master
that is compared by its key needs one more lookup for the service, which succeeds if the
schema has all the types that it speaks of.
-/

namespace EntityQuery

/-- Faults of a literal that does not fit: one that is no date, a list or a record, and one
that does not match the declared type of the other side. -/
def Fault.refusesLiteral : Fault → Bool
  | invalidDate _ => true
  | invalidArguments (.literalKind _) => true
  | invalidArguments (.literalMismatch ..) => true
  | _ => false

namespace Predicate

/-- A predicate that asserts a type. -/
def assertsType : Predicate → Bool
  | isOf .. => true
  | _ => false

/-- A predicate that tests a shape. -/
def testsShape : Predicate → Bool
  | shape .. => true
  | _ => false

mutual

/-- A condition holds of every leaf of a predicate. -/
def EveryLeaf (P : Predicate → Prop) : Predicate → Prop
  | compare left op right => P (compare left op right)
  | compareDates left op right timeless => P (compareDates left op right timeless)
  | contains path text => P (contains path text)
  | shape kind path test => P (shape kind path test)
  | isOf expression typeName => P (isOf expression typeName)
  | const verdict => P (const verdict)
  | group _ members => EveryLeafOf P members
  | quantified _ _ body => EveryLeaf P body
  | not body => EveryLeaf P body
termination_by structural predicate => predicate

/-- A condition holds of every leaf of some predicates. -/
def EveryLeafOf (P : Predicate → Prop) : List Predicate → Prop
  | [] => True
  | member :: members => EveryLeaf P member ∧ EveryLeafOf P members
termination_by structural members => members

end

end Predicate

namespace Remote.Context

open Rows

variable {context : Context} {scope : Scope}

/-- A path is looked up for the service and for tests alike. -/
theorem endAlike_reference (context : Context) (scope : Scope) (path : String) :
    EndAlike (context.reference scope path) (checkedPath context.schema scope.entityType path) := by
  cases hchain : context.schema.resolvePath scope.entityType path with
  | error fault =>
    rw [reference, checkedPath, Schema.resolveEnd, hchain]
    exact .faults fault
  | ok chain =>
    obtain ⟨segments, hsegments, hwalk⟩ := bind_eq_ok_iff.mp hchain
    have hne : chain ≠ [] := by
      rw [← List.length_pos_iff, Schema.length_walk hwalk, List.length_pos_iff]
      exact Schema.pathSegments_ne_nil hsegments
    have hend : context.schema.resolveEnd scope.entityType path =
        .ok (chain, chain.getLast hne) := by
      simp [Schema.resolveEnd, hchain, List.getLast?_eq_getLast_of_ne_nil hne, bind, Except.bind,
        pure, Except.pure]
    rw [reference, checkedPath, hend, hchain, hsegments]
    exact .results _ _

/-- A path that tests can read has a reference, and the other way round. -/
theorem exists_reference_iff {path : String} :
    (∃ found, context.reference scope path = .ok found) ↔
      ∃ segments, checkedPath context.schema scope.entityType path = .ok segments :=
  (endAlike_reference context scope path).exists_ok_iff

/-- A number is refused for a numeric field only because it does not fit. -/
theorem refusesLiteral_of_numericLiteral {field : Field} {value : Value} {fault : Fault}
    (h : numericLiteral field value = .error fault) : fault.refusesLiteral = true := by
  cases value with
  | int n => cases h
  | float x => cases h
  | string raw =>
    by_cases hnumber : Decimal.isFiniteNumber (Text.trim raw) = true
    · simp [numericLiteral, hnumber] at h
    · simp only [numericLiteral, hnumber, Bool.false_eq_true, if_false] at h
      obtain rfl := Except.error.inj h
      rfl
  | null | bool b | instant t | list items | record fields =>
    obtain rfl := Except.error.inj h
    rfl

/-- A truth value is refused for a boolean field only because it does not fit. -/
theorem refusesLiteral_of_booleanLiteral {field : Field} {value : Value} {fault : Fault}
    (h : booleanLiteral field value = .error fault) : fault.refusesLiteral = true := by
  cases value with
  | bool b => cases h
  | string raw =>
    simp only [booleanLiteral] at h
    by_cases hword : Text.lowercaseAscii (Text.trim raw) = "true" ∨
        Text.lowercaseAscii (Text.trim raw) = "false"
    · simp [hword] at h
    · rw [if_neg hword] at h
      obtain rfl := Except.error.inj h
      rfl
  | null | int n | float x | instant t | list items | record fields =>
    obtain rfl := Except.error.inj h
    rfl

/-- A value is refused as a date only because it is none. -/
theorem refusesLiteral_of_dateLiteral {value : Value} {dateOnly : Bool} {fault : Fault}
    (h : context.dateLiteral value dateOnly = .error fault) : fault.refusesLiteral = true := by
  unfold dateLiteral at h
  cases hread : context.dates.read? value with
  | some t => simp [hread] at h
  | none =>
    simp only [hread] at h
    obtain rfl := Except.error.inj h
    rfl

/-- Without a declared type only lists and records are refused. -/
theorem refusesLiteral_of_plainLiteral {value : Value} {fault : Fault}
    (h : context.plainLiteral value = .error fault) : fault.refusesLiteral = true := by
  cases value with
  | null | bool b | int n | float x | string text | instant t => cases h
  | list items | record fields =>
    obtain rfl := Except.error.inj h
    rfl

/-- A value is refused against a field only because it does not fit. -/
theorem refusesLiteral_of_fieldLiteral {field : Field} {value : Value} {fault : Fault}
    (h : context.fieldLiteral field value = .error fault) : fault.refusesLiteral = true := by
  unfold fieldLiteral at h
  cases htype : field.attributeType? with
  | some type =>
    rw [htype] at h
    cases type with
    | enumeration typeName => cases h
    | guid => cases h
    | date => exact refusesLiteral_of_dateLiteral h
    | number | decimal => exact refusesLiteral_of_numericLiteral h
    | boolean => exact refusesLiteral_of_booleanLiteral h
    | string => exact refusesLiteral_of_plainLiteral h
  | none =>
    simp only [htype] at h
    cases hkey : field.keyType? with
    | some type => simp [hkey] at h
    | none =>
      simp only [hkey] at h
      exact refusesLiteral_of_plainLiteral h

/-- A side of a comparison is refused only because of a literal that does not fit. -/
theorem refusesLiteral_of_side {timeless : Option Bool} {other resolved : Resolved}
    {fault : Fault} (h : context.side timeless other resolved = .error fault) :
    fault.refusesLiteral = true := by
  cases resolved with
  | field reference deciding => cases h
  | literal value =>
    replace h := map_eq_error_iff.mp h
    unfold literal at h
    by_cases hnull : value.isNull = true
    · simp [hnull] at h
    · simp only [hnull, Bool.false_eq_true, if_false] at h
      cases timeless with
      | some dateOnly => exact refusesLiteral_of_dateLiteral h
      | none =>
        cases hfield : other.field? with
        | some field =>
          simp only [hfield] at h
          exact refusesLiteral_of_fieldLiteral h
        | none =>
          simp only [hfield] at h
          exact refusesLiteral_of_plainLiteral h

/-- An operand that is looked up for the service has a source of values. -/
theorem exists_source_of_resolveOperand {other operand : Operand} {resolved : Resolved}
    (h : context.resolveOperand scope other operand = .ok resolved) :
    ∃ source, Source.ofOperand context.schema scope.entityType operand = .ok source := by
  cases operand with
  | literal value => exact ⟨.fixed value, rfl⟩
  | field path =>
    obtain ⟨reference, field, hreference, _⟩ := resolveOperand_field_eq_ok h
    obtain ⟨segments, hsegments⟩ := exists_reference_iff.mp ⟨_, hreference⟩
    exact ⟨.path segments, map_eq_ok_iff.mpr ⟨segments, hsegments, rfl⟩⟩

/-- In a closed schema an operand with a source of values can be looked up for the service:
what a relationship leads to has a key, which is the only thing that the tests do not look up. -/
theorem exists_resolved_of_ofOperand (hclosed : context.schema.Closed) (other : Operand)
    {operand : Operand} {source : Source}
    (h : Source.ofOperand context.schema scope.entityType operand = .ok source) :
    ∃ resolved, context.resolveOperand scope other operand = .ok resolved := by
  cases operand with
  | literal value => exact ⟨.literal value, rfl⟩
  | field path =>
    obtain ⟨segments, hsegments, _⟩ := map_eq_ok_iff.mp h
    obtain ⟨⟨reference, field⟩, hreference⟩ := exists_reference_iff.mpr ⟨segments, hsegments⟩
    simp only [resolveOperand, hreference]
    by_cases hkey : field.kind = .belongsTo ∧ isSolidLiteral other = true
    · obtain ⟨⟨chain, last⟩, hend, hlast⟩ := bind_eq_ok_iff.mp hreference
      obtain ⟨_, rfl⟩ := Prod.mk.inj (pure_eq_ok_iff.mp hlast)
      obtain ⟨hchain, hmem⟩ := Schema.resolveEnd_eq_ok hend
      obtain ⟨owner, name, hfield⟩ := hchain last hmem
      obtain ⟨key, hfound⟩ := hclosed.exists_key_target hfield hkey.1
      exact ⟨.field { reference with names := reference.names ++ [context.remoteName key] } key,
        by simp [bind, Except.bind, pure, Except.pure, hkey, hfound]⟩
    · exact ⟨.field reference field, by simp [bind, Except.bind, pure, Except.pure, hkey]⟩

/-- A comparison that is put into words can be tested. -/
theorem exists_test_of_comparison {left right : Operand} {op : Comparison}
    {timeless : Option Bool} {expression : Expression}
    (h : context.comparison scope left op right timeless = .ok expression) (reading : Reading) :
    ∃ test, Test.ofComparison context.schema scope.entityType left op right reading =
      .ok test := by
  obtain ⟨resolvedLeft, hleft, h⟩ := bind_eq_ok_iff.mp h
  obtain ⟨resolvedRight, hright, _⟩ := bind_eq_ok_iff.mp h
  obtain ⟨leftSource, hleft⟩ := exists_source_of_resolveOperand hleft
  obtain ⟨rightSource, hright⟩ := exists_source_of_resolveOperand hright
  exact ⟨.compare leftSource op rightSource reading, bind_eq_ok_iff.mpr
    ⟨leftSource, hleft, bind_eq_ok_iff.mpr ⟨rightSource, hright, rfl⟩⟩⟩

/-- In a closed schema a comparison that can be tested is refused only because of a literal. -/
theorem refusesLiteral_of_comparison (hclosed : context.schema.Closed) {left right : Operand}
    {op : Comparison} {timeless : Option Bool} {reading : Reading} {test : Test} {fault : Fault}
    (htest : Test.ofComparison context.schema scope.entityType left op right reading = .ok test)
    (h : context.comparison scope left op right timeless = .error fault) :
    fault.refusesLiteral = true := by
  obtain ⟨leftSource, hleft, htest⟩ := bind_eq_ok_iff.mp htest
  obtain ⟨rightSource, hright, _⟩ := bind_eq_ok_iff.mp htest
  obtain ⟨resolvedLeft, hleft⟩ := exists_resolved_of_ofOperand hclosed right hleft
  obtain ⟨resolvedRight, hright⟩ := exists_resolved_of_ofOperand hclosed left hright
  rw [comparison, hleft, ok_bind, hright, ok_bind] at h
  rcases bind_eq_error_iff.mp h with hside | ⟨leftSide, _, h⟩
  · exact refusesLiteral_of_side hside
  · rcases bind_eq_error_iff.mp h with hside | ⟨rightSide, _, h⟩
    · exact refusesLiteral_of_side hside
    · exact absurd h pure_ne_error

mutual

/-- A predicate without type assertions that is put into words can be tested. -/
theorem exists_test_of_expressionWithin :
    ∀ (predicate : Predicate) {scope : Scope} {expression : Expression},
      context.expressionWithin predicate scope = .ok expression →
        predicate.EveryLeaf (fun leaf => leaf.assertsType = false) →
          ∃ test, Test.ofPredicate context.schema predicate scope.entityType = .ok test
  | .compare left op right, scope, expression, h, _ => exists_test_of_comparison h .values
  | .compareDates left op right timeless, scope, expression, h, _ =>
    exists_test_of_comparison h (if timeless then .days else .moments)
  | .contains path text, scope, expression, h, _ => by
    obtain ⟨found, hreference, _⟩ := bind_eq_ok_iff.mp h
    obtain ⟨segments, hsegments⟩ := exists_reference_iff.mp ⟨found, hreference⟩
    exact ⟨.contains segments (Text.lowercase text),
      bind_eq_ok_iff.mpr ⟨segments, hsegments, rfl⟩⟩
  | .shape kind path test, scope, expression, _, _ => ⟨.const true, rfl⟩
  | .isOf asserted typeName, scope, expression, _, hleaves => by cases hleaves
  | .not body, scope, expression, h, hleaves => by
    obtain ⟨inner, hinner, _⟩ := bind_eq_ok_iff.mp h
    obtain ⟨test, htest⟩ := exists_test_of_expressionWithin body hinner hleaves
    exact ⟨.not test, bind_eq_ok_iff.mpr ⟨test, htest, rfl⟩⟩
  | .group connective members, scope, expression, h, hleaves => by
    obtain ⟨inner, hinner, _⟩ := bind_eq_ok_iff.mp h
    obtain ⟨tests, htests⟩ := exists_tests_of_membersWithin members hinner hleaves
    exact ⟨.group connective tests, bind_eq_ok_iff.mpr ⟨tests, htests, rfl⟩⟩
  | .quantified path quantifier body, scope, expression, h, hleaves => by
    obtain ⟨collection, hcollection, h⟩ := bind_eq_ok_iff.mp h
    obtain ⟨found, hreference, h⟩ := bind_eq_ok_iff.mp h
    obtain ⟨inner, hinner, _⟩ := bind_eq_ok_iff.mp h
    obtain ⟨segments, hsegments⟩ := exists_reference_iff.mp ⟨found, hreference⟩
    obtain ⟨test, htest⟩ := exists_test_of_expressionWithin body hinner hleaves
    exact ⟨.quantified segments quantifier test, bind_eq_ok_iff.mpr ⟨collection, hcollection,
      bind_eq_ok_iff.mpr ⟨segments, hsegments, bind_eq_ok_iff.mpr ⟨test, htest, rfl⟩⟩⟩⟩
  | .const verdict, scope, expression, _, _ => ⟨.const verdict, rfl⟩

/-- Members without type assertions that are put into words can be tested. -/
theorem exists_tests_of_membersWithin :
    ∀ (members : List Predicate) {scope : Scope} {expressions : List Expression},
      context.membersWithin members scope = .ok expressions →
        Predicate.EveryLeafOf (fun leaf => leaf.assertsType = false) members →
          ∃ tests, Test.ofMembers context.schema members scope.entityType = .ok tests
  | [], scope, expressions, _, _ => ⟨[], rfl⟩
  | member :: members, scope, expressions, h, hleaves => by
    obtain ⟨first, hfirst, h⟩ := bind_eq_ok_iff.mp h
    obtain ⟨others, hothers, _⟩ := bind_eq_ok_iff.mp h
    obtain ⟨test, htest⟩ := exists_test_of_expressionWithin member hfirst hleaves.1
    obtain ⟨tests, htests⟩ := exists_tests_of_membersWithin members hothers hleaves.2
    exact ⟨test :: tests, bind_eq_ok_iff.mpr ⟨test, htest,
      bind_eq_ok_iff.mpr ⟨tests, htests, rfl⟩⟩⟩

end

mutual

/-- In a closed schema a predicate without shape tests that can be tested is refused only
because of a literal. -/
theorem refusesLiteral_of_expressionWithin (hclosed : context.schema.Closed) :
    ∀ (predicate : Predicate) {scope : Scope} {test : Test} {fault : Fault},
      Test.ofPredicate context.schema predicate scope.entityType = .ok test →
        predicate.EveryLeaf (fun leaf => leaf.testsShape = false) →
          context.expressionWithin predicate scope = .error fault → fault.refusesLiteral = true
  | .compare left op right, scope, test, fault, htest, _, h =>
    refusesLiteral_of_comparison hclosed htest h
  | .compareDates left op right timeless, scope, test, fault, htest, _, h =>
    refusesLiteral_of_comparison hclosed htest h
  | .contains path text, scope, test, fault, htest, _, h => by
    obtain ⟨segments, hsegments, _⟩ := bind_eq_ok_iff.mp htest
    obtain ⟨found, hreference⟩ := exists_reference_iff.mpr ⟨segments, hsegments⟩
    rw [expressionWithin, containsExpression, hreference] at h
    cases h
  | .shape kind path shapeTest, scope, test, fault, _, hleaves, _ => by cases hleaves
  | .isOf asserted typeName, scope, test, fault, htest, _, _ => by cases htest
  | .not body, scope, test, fault, htest, hleaves, h => by
    obtain ⟨inner, hinner, _⟩ := bind_eq_ok_iff.mp htest
    rcases bind_eq_error_iff.mp h with hbody | ⟨_, _, h⟩
    · exact refusesLiteral_of_expressionWithin hclosed body hinner hleaves hbody
    · exact absurd h pure_ne_error
  | .group connective members, scope, test, fault, htest, hleaves, h => by
    obtain ⟨tests, htests, _⟩ := bind_eq_ok_iff.mp htest
    rcases bind_eq_error_iff.mp h with hmembers | ⟨_, _, h⟩
    · exact refusesLiteral_of_membersWithin hclosed members htests hleaves hmembers
    · exact absurd h pure_ne_error
  | .quantified path quantifier body, scope, test, fault, htest, hleaves, h => by
    obtain ⟨collection, hcollection, htest⟩ := bind_eq_ok_iff.mp htest
    obtain ⟨segments, hsegments, htest⟩ := bind_eq_ok_iff.mp htest
    obtain ⟨inner, hinner, _⟩ := bind_eq_ok_iff.mp htest
    obtain ⟨⟨reference, field⟩, hreference⟩ := exists_reference_iff.mpr ⟨segments, hsegments⟩
    rw [expressionWithin, hcollection, ok_bind, hreference, ok_bind] at h
    rcases bind_eq_error_iff.mp h with hbody | ⟨_, _, h⟩
    · exact refusesLiteral_of_expressionWithin hclosed body hinner hleaves hbody
    · exact absurd h pure_ne_error
  | .const verdict, scope, test, fault, _, _, h => by cases h

/-- In a closed schema members without shape tests that can be tested are refused only because
of a literal. -/
theorem refusesLiteral_of_membersWithin (hclosed : context.schema.Closed) :
    ∀ (members : List Predicate) {scope : Scope} {tests : List Test} {fault : Fault},
      Test.ofMembers context.schema members scope.entityType = .ok tests →
        Predicate.EveryLeafOf (fun leaf => leaf.testsShape = false) members →
          context.membersWithin members scope = .error fault → fault.refusesLiteral = true
  | [], scope, tests, fault, _, _, h => by cases h
  | member :: members, scope, tests, fault, htests, hleaves, h => by
    obtain ⟨first, hfirst, htests⟩ := bind_eq_ok_iff.mp htests
    obtain ⟨others, hothers, _⟩ := bind_eq_ok_iff.mp htests
    rcases bind_eq_error_iff.mp h with hmember | ⟨_, _, h⟩
    · exact refusesLiteral_of_expressionWithin hclosed member hfirst hleaves.1 hmember
    · rcases bind_eq_error_iff.mp h with hmembers | ⟨_, _, h⟩
      · exact refusesLiteral_of_membersWithin hclosed members hothers hleaves.2 hmembers
      · exact absurd h pure_ne_error

end

/-- A sort key is looked up for the service and for sorting alike. -/
theorem endAlike_keyText (context : Context) (type : String) (key : SortKey) :
    EndAlike (context.keyText type key) (Order.keyOf context.schema type key) := by
  refine (endAlike_reference context (.root type) key.path).bind ?_
  rintro ⟨reference, field⟩ segments
  cases hdirection : key.direction with
  | none =>
    simp only
    exact .results _ _
  | some direction =>
    simp only
    exact .results _ _

/-- The service and the order of records accept the same clauses, and refuse the others with
the same fault. -/
theorem endAlike_orderText (context : Context) (type : String) (clause : OrderClause) :
    EndAlike (context.orderText type clause) (Order.ofClause context.schema type clause) := by
  have hkeys : EndAlike (clause.keys.mapM (context.keyText type))
      (clause.keys.mapM (Order.keyOf context.schema type)) :=
    EndAlike.mapM (endAlike_keyText context type) clause.keys
  exact hkeys.map (String.intercalate ",") Order.mk

/-- Filters and orders are accepted remotely and in memory alike. A filter without type
assertions that is put into words can be tested; without shape tests and in a closed schema, a
filter that can be tested is refused by the service only because of a literal that does not
fit. An order clause is accepted by both, or refused by both with the same fault. -/
theorem acceptance_agrees (context : Context) (type : String) :
    (∀ predicate : Predicate, predicate.EveryLeaf (fun leaf => leaf.assertsType = false) →
        (∀ text, context.filterText type predicate = .ok text →
            ∃ test, Test.ofPredicate context.schema predicate type = .ok test) ∧
          (predicate.EveryLeaf (fun leaf => leaf.testsShape = false) → context.schema.Closed →
            ∀ test, Test.ofPredicate context.schema predicate type = .ok test →
              ∀ fault, context.filterText type predicate = .error fault →
                fault.refusesLiteral = true)) ∧
      ∀ clause, EndAlike (context.orderText type clause)
        (Order.ofClause context.schema type clause) := by
  refine ⟨fun predicate hasserts => ⟨?_, ?_⟩, endAlike_orderText context type⟩
  · intro text htext
    obtain ⟨expression, hexpression, _⟩ := map_eq_ok_iff.mp htext
    exact exists_test_of_expressionWithin predicate hexpression hasserts
  · intro hshapes hclosed test htest fault hfault
    have hexpression := map_eq_error_iff.mp hfault
    exact refusesLiteral_of_expressionWithin hclosed predicate htest hshapes hexpression

/-- The employees with a given manager and an order not below a price. -/
def priceFilter (price : Value) : Predicate :=
  .group .and [.simple "manager" .eq (.string "e1"),
    .quantified "orders" .any (.not (.simple "price" .lt price))]

theorem acceptance_agrees_prices :
    (∀ price, (priceFilter price).EveryLeaf (fun leaf => leaf.assertsType = false) ∧
        (priceFilter price).EveryLeaf (fun leaf => leaf.testsShape = false)) ∧
      sample.schema.Closed ∧
      (∃ test, Test.ofPredicate sample.schema (priceFilter (.int 5)) "employee" = .ok test) ∧
      (∃ fault, sample.filterText "employee" (priceFilter (.string "high")) = .error fault ∧
        fault.refusesLiteral = true) ∧
      EndAlike (sample.orderText "employee" ⟨[⟨"manager.salary", none⟩]⟩)
        (Order.ofClause sample.schema "employee" ⟨[⟨"manager.salary", none⟩]⟩) := by
  have hasserts : ∀ price, (priceFilter price).EveryLeaf (fun leaf => leaf.assertsType = false) :=
    fun price => ⟨rfl, rfl, trivial⟩
  have hshapes : ∀ price, (priceFilter price).EveryLeaf (fun leaf => leaf.testsShape = false) :=
    fun price => ⟨rfl, rfl, trivial⟩
  have hclosed : sample.schema.Closed := by
    constructor
    · decide +kernel
    · decide +kernel
  obtain ⟨hfilter, horder⟩ := acceptance_agrees sample "employee"
  refine ⟨fun price => ⟨hasserts price, hshapes price⟩, hclosed, ?_, ?_, horder _⟩
  · obtain ⟨text, htext⟩ : ∃ text, sample.filterText "employee" (priceFilter (.int 5)) =
        .ok text :=
      exists_eq_ok_of_isOk (by decide +kernel)
    exact (hfilter _ (hasserts _)).1 text htext
  · obtain ⟨test, htest⟩ : ∃ test, Test.ofPredicate sample.schema (priceFilter (.string "high"))
        "employee" = .ok test :=
      exists_eq_ok_of_isOk (by decide +kernel)
    have hfault : sample.filterText "employee" (priceFilter (.string "high")) =
        .error (.invalidArguments (.literalMismatch "string" "high" "order" "price")) := by
      decide +kernel
    exact ⟨_, hfault, (hfilter _ (hasserts _)).2 (hshapes _) hclosed test htest _ hfault⟩

end Remote.Context

end EntityQuery
