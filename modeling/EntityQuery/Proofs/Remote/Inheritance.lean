import EntityQuery.Proofs.Schema.Inheritance
import EntityQuery.Remote.Filter
import EntityQuery.Rows.Order

/-!
# Queries for derived types

A filter or an order for a base type is one for every type that only adds fields to it. In requests
it is put into the same words, and it is tested and sorted by in the same way, because nothing that
is written or read depends on the entity that an identity is said to belong to.
-/

namespace EntityQuery

variable {type base : String} {model : Model}

namespace Remote

/-- A scope that is about the records of another type. -/
def Scope.about (scope : Scope) (type : String) : Scope := { scope with entityType := type }

namespace Context

/-- Two operands have been looked up to the same, but for the entity of an identity. -/
inductive Resolved.Alike : Resolved → Resolved → Prop where
  /-- One reference to fields that are alike. -/
  | field (reference : Reference) {first second : Field} (h : first.Alike second) :
    Resolved.Alike (.field reference first) (.field reference second)
  /-- One value. -/
  | literal (value : Value) : Resolved.Alike (.literal value) (.literal value)

variable {context : Context} {first second : Field}

/-- Fields that are alike have one name in requests. -/
theorem remoteName_of_alike (h : first.Alike second) :
    context.remoteName first = context.remoteName second := by
  cases h <;> rfl

/-- A value is written in one way against fields that are alike. -/
theorem literal_of_alike (h : first.Alike second) (value : Value) (timeless : Option Bool) :
    context.literal value (some first) timeless = context.literal value (some second) timeless := by
  cases timeless with
  | some timeless => rfl
  | none =>
    have hfield : context.fieldLiteral first value = context.fieldLiteral second value := by
      cases h <;> rfl
    simp only [literal, hfield]

/-- So are the sides of comparisons with operands that are alike. -/
theorem side_of_alike {other other' resolved resolved' : Resolved} (timeless : Option Bool)
    (hother : other.Alike other') (h : resolved.Alike resolved') :
    context.side timeless other resolved = context.side timeless other' resolved' := by
  cases h with
  | field reference h => rfl
  | literal value =>
    cases hother with
    | field reference h =>
      simp only [side, Resolved.field?, literal_of_alike h]
    | literal other => rfl

section

variable {scope : Scope} (h : context.schema.InheritsPaths type scope.entityType)

include h

/-- A path has one reference from the type and from its base, to fields that are alike. -/
theorem carries_reference (path : String) :
    Carries (fun found found' => found.1 = found'.1 ∧ found.2.Alike found'.2)
      (context.reference scope path) (context.reference (scope.about type) path) := by
  refine (h.resolveEnd path).bind ?_
  rintro ⟨chain, last⟩ ⟨chain', last'⟩ ⟨hchain, hlast⟩
  have hnames : chain.map context.remoteName = chain'.map context.remoteName := by
    rw [← List.forall₂_eq_eq_eq, List.forall₂_map_left_iff, List.forall₂_map_right_iff]
    exact hchain.imp fun _ _ => remoteName_of_alike
  exact .results ⟨congrArg (Reference.mk scope.binder?) hnames, hlast⟩

/-- What is made of the reference of a path alone is the same. -/
theorem carries_reference_bind (path : String) (rest : Reference → Except Fault Expression) :
    Carries Eq (context.reference scope path >>= fun found => rest found.1)
      (context.reference (scope.about type) path >>= fun found => rest found.1) := by
  refine (carries_reference h path).bind ?_
  rintro ⟨reference, _⟩ ⟨_, _⟩ ⟨rfl, _⟩
  exact .refl _

/-- An operand is looked up alike. -/
theorem carries_resolveOperand (other operand : Operand) :
    Carries Resolved.Alike (context.resolveOperand scope other operand)
      (context.resolveOperand (scope.about type) other operand) := by
  cases operand with
  | literal value => exact .results (.literal value)
  | field path =>
    refine (carries_reference h path).bind ?_
    rintro ⟨reference, field⟩ ⟨_, field'⟩ ⟨rfl, halike⟩
    dsimp only
    rw [← halike.kind_eq]
    by_cases hkey : field.kind = .belongsTo ∧ isSolidLiteral other = true
    · obtain rfl := halike.eq_of_kind (by rw [hkey.1]; decide)
      rw [if_pos hkey]
      refine (Carries.refl (context.schema.key field.target)).bind ?_
      rintro key _ rfl
      exact .results (.field _ (.refl key))
    · rw [if_neg hkey, if_neg hkey]
      exact .results (.field reference halike)

/-- A comparison is put into the same words. -/
theorem carries_comparison (left : Operand) (op : Comparison) (right : Operand)
    (timeless : Option Bool) :
    Carries Eq (context.comparison scope left op right timeless)
      (context.comparison (scope.about type) left op right timeless) := by
  refine (carries_resolveOperand h right left).bind fun l l' hleft => ?_
  refine (carries_resolveOperand h left right).bind fun r r' hright => ?_
  rw [side_of_alike timeless hright hleft, side_of_alike timeless hleft hright]
  exact .refl _

/-- So is a type assertion. -/
theorem carries_isOfExpression (expression : Option String) (typeName : String) :
    Carries Eq (context.isOfExpression scope expression typeName)
      (context.isOfExpression (scope.about type) expression typeName) := by
  cases expression with
  | none =>
    obtain ⟨entityType, binder?, depth⟩ := scope
    cases binder? with
    | none => exact .results rfl
    | some bound => exact .results rfl
  | some path =>
    exact carries_reference_bind h path fun reference =>
      .ok (.isOf (.value reference) (context.settings.qualify typeName))

/-- So is a quantifier, whose body is about the items of a collection whatever the type is. -/
theorem carries_quantified (path : String) (quantifier : Quantifier) (body : Predicate) :
    Carries Eq (context.expressionWithin (.quantified path quantifier body) scope)
      (context.expressionWithin (.quantified path quantifier body) (scope.about type)) := by
  rw [expressionWithin, expressionWithin]
  refine (h.resolveCollection path).bind ?_
  rintro collection _ rfl
  exact carries_reference_bind h path fun reference => do
    let bound := context.boundVariable scope
    let inner := ⟨collection.target, some bound, scope.depth + 1⟩
    return .quantified reference quantifier bound (← context.expressionWithin body inner)

end

mutual

/-- A predicate on the records of the base is put into the same words for the type. -/
theorem carries_expressionWithin : ∀ (predicate : Predicate) {scope : Scope},
    context.schema.InheritsPaths type scope.entityType →
      Carries Eq (context.expressionWithin predicate scope)
        (context.expressionWithin predicate (scope.about type))
  | .compare left op right, scope, h => carries_comparison h left op right none
  | .compareDates left op right timeless, scope, h =>
    carries_comparison h left op right (some timeless)
  | .contains path text, scope, h =>
    carries_reference_bind h path fun reference =>
      .ok (.contains reference context.settings.caselessContains
        (if context.settings.caselessContains then Text.lowercase text else text))
  | .shape kind path test, scope, h =>
    carries_reference_bind h path fun reference =>
      match test with
      | .intersects shape => .ok (.intersects reference kind shape)
      | .distance shape op limit => .ok (.distance reference kind shape op limit)
  | .isOf expression typeName, scope, h => carries_isOfExpression h expression typeName
  | .not body, scope, h => by
    refine (carries_expressionWithin body h).bind ?_
    rintro expression _ rfl
    exact .refl _
  | .group connective members, scope, h => by
    refine (carries_membersWithin members h).bind ?_
    rintro expressions _ rfl
    exact .refl _
  | .quantified path quantifier body, scope, h => carries_quantified h path quantifier body
  | .const _, _, _ => .results rfl

/-- So are the members of a group. -/
theorem carries_membersWithin : ∀ (members : List Predicate) {scope : Scope},
    context.schema.InheritsPaths type scope.entityType →
      Carries Eq (context.membersWithin members scope)
        (context.membersWithin members (scope.about type))
  | [], _, _ => .results rfl
  | member :: members, scope, h => by
    refine (carries_expressionWithin member h).bind ?_
    rintro expression _ rfl
    refine (carries_membersWithin members h).bind ?_
    rintro expressions _ rfl
    exact .refl _

end

/-- A sort key for the base has the same text for the type. -/
theorem carries_keyText (h : context.schema.InheritsPaths type base) (key : SortKey) :
    Carries Eq (context.keyText base key) (context.keyText type key) := by
  have hreference : Carries _ (context.reference (.root base) key.path)
      (context.reference (.root type) key.path) := carries_reference h key.path
  refine hreference.bind ?_
  rintro ⟨reference, _⟩ ⟨_, _⟩ ⟨rfl, _⟩
  exact .refl _

end Context

end Remote

namespace Rows

variable {schema : Schema} (h : schema.InheritsPaths type base)

include h

/-- A path that can be read for the base can be read for the type. -/
theorem carries_checkedPath (path : String) :
    Carries Eq (checkedPath schema base path) (checkedPath schema type path) :=
  (h path).bind fun _ _ _ => .refl _

/-- A comparison is tested in the same way. -/
theorem carries_ofComparison (left : Operand) (op : Comparison) (right : Operand)
    (reading : Reading) :
    Carries Eq (Test.ofComparison schema base left op right reading)
      (Test.ofComparison schema type left op right reading) := by
  have hsource : ∀ operand, Carries Eq (Source.ofOperand schema base operand)
      (Source.ofOperand schema type operand) := by
    intro operand
    cases operand with
    | field path => exact (carries_checkedPath h path).map fun _ _ => congrArg Source.path
    | literal value => exact .results rfl
  refine (hsource left).bind ?_
  rintro l _ rfl
  refine (hsource right).bind ?_
  rintro r _ rfl
  exact .refl _

omit h

mutual

/-- A predicate on the records of the base has the same test for the type. -/
theorem carries_ofPredicate (h : schema.InheritsPaths type base) : ∀ predicate : Predicate,
    Carries Eq (Test.ofPredicate schema predicate base) (Test.ofPredicate schema predicate type)
  | .compare left op right => carries_ofComparison h left op right .values
  | .compareDates left op right timeless =>
    carries_ofComparison h left op right (if timeless then .days else .moments)
  | .contains path text => by
    refine (carries_checkedPath h path).bind ?_
    rintro segments _ rfl
    exact .refl _
  | .shape .. => .results rfl
  | .isOf .. => .fault
  | .not body => by
    refine (carries_ofPredicate h body).bind ?_
    rintro test _ rfl
    exact .refl _
  | .group connective members => by
    refine (carries_ofMembers h members).bind ?_
    rintro tests _ rfl
    exact .refl _
  | .quantified path quantifier body => by
    refine (h.resolveCollection path).bind ?_
    rintro collection _ rfl
    refine (carries_checkedPath h path).bind ?_
    rintro segments _ rfl
    exact .refl _
  | .const _ => .results rfl

/-- So have the members of a group. -/
theorem carries_ofMembers (h : schema.InheritsPaths type base) : ∀ members : List Predicate,
    Carries Eq (Test.ofMembers schema members base) (Test.ofMembers schema members type)
  | [] => .results rfl
  | member :: members => by
    refine (carries_ofPredicate h member).bind ?_
    rintro test _ rfl
    refine (carries_ofMembers h members).bind ?_
    rintro tests _ rfl
    exact .refl _

end

/-- A clause for the base is the same order for the type. -/
theorem carries_ofClause (h : schema.InheritsPaths type base) (clause : OrderClause) :
    Carries Eq (Order.ofClause schema base clause) (Order.ofClause schema type clause) := by
  have hkey : ∀ key, Carries Eq (Order.keyOf schema base key) (Order.keyOf schema type key) := by
    intro key
    refine (carries_checkedPath h key.path).bind ?_
    rintro segments _ rfl
    exact .refl _
  refine (Carries.mapM hkey clause.keys).bind ?_
  rintro keys _ rfl
  exact .refl _

end Rows

namespace Remote.Context

open Rows

/-- Without cycles of bases, a type that only adds fields to those of its base takes the queries for
its base: a filter or an order that is put into words for the base is put into the same words for
the type, and one that records of the base are tested or sorted by is the same for the type. -/
theorem inheritance_transparent {context : Context} (hacyclic : context.schema.Acyclic)
    (h : context.schema.OnlyAdds type base model) :
    (∀ predicate text, context.filterText base predicate = .ok text →
        context.filterText type predicate = .ok text) ∧
      (∀ clause text, context.orderText base clause = .ok text →
        context.orderText type clause = .ok text) ∧
      (∀ predicate test, Test.ofPredicate context.schema predicate base = .ok test →
        Test.ofPredicate context.schema predicate type = .ok test) ∧
      ∀ clause order, Order.ofClause context.schema base clause = .ok order →
        Order.ofClause context.schema type clause = .ok order := by
  have hpaths := h.inheritsPaths hacyclic
  refine ⟨fun predicate text => ?_, fun clause text => ?_, fun predicate test => ?_,
    fun clause order => ?_⟩
  · have hexpression : Carries Eq (context.expression base predicate)
        (context.expression type predicate) :=
      @carries_expressionWithin type context predicate (.root base) hpaths
    exact (hexpression.map fun _ _ => congrArg Expression.text).eq_ok
  · have hkeys := Carries.mapM (carries_keyText hpaths) clause.keys
    exact (hkeys.map fun _ _ => congrArg (String.intercalate ",")).eq_ok
  · exact (carries_ofPredicate hpaths predicate).eq_ok
  · exact (carries_ofClause hpaths clause).eq_ok

/-- A schema of employees, who have a numeric key with a name of its own, and of directors, who are
employees with a bonus and assistants. -/
def directorSchema : Schema where
  models := [
    ("director", {
      name := "director", parent := some "employee",
      attributes := [⟨"bonus", .decimal, none⟩],
      relationships := [{ name := "assistants", kind := .hasMany, target := "employee" }] }),
    ("employee", {
      name := "employee", keyName := some "Number", keyType := some .number,
      attributes := [⟨"name", .string, none⟩],
      relationships := [
        { name := "manager", kind := .belongsTo, target := "director" },
        { name := "reports", kind := .hasMany, target := "employee" }] })]

/-- The requests for them. -/
def directors : Context := { schema := directorSchema, settings := {} }

/-- Only directors have a base. -/
theorem acyclic_directorSchema : directorSchema.Acyclic := by
  refine Schema.acyclic_of_rank (fun type => if type = "director" then 1 else 0) ?_
  rintro type base ⟨model, hmodel, hparent⟩
  have hmem := Entries.mem_of_get? hmodel
  simp only [directorSchema, List.mem_cons, List.not_mem_nil, or_false, Prod.mk.injEq] at hmem
  rcases hmem with ⟨rfl, rfl⟩ | ⟨rfl, rfl⟩
  · obtain rfl := Option.some.inj hparent
    decide
  · cases hparent

/-- Directors only add fields to those of employees. -/
theorem onlyAdds_director : directorSchema.OnlyAdds "director" "employee" {
    name := "director", parent := some "employee",
    attributes := [⟨"bonus", .decimal, none⟩],
    relationships := [{ name := "assistants", kind := .hasMany, target := "employee" }] } where
  model_eq := rfl
  parent_eq := rfl
  keyName_eq := rfl
  keyType_eq := rfl
  isNew := by
    intro name hname field hfield
    have hmissing : ∀ name ∈ ["bonus", "assistants"],
        (directorSchema.resolve "employee" name).isOk = false := by decide +kernel
    have hnone := hmissing name hname
    rw [hfield] at hnone
    cases hnone

/-- A condition on employees: by their number, and by a report with a manager of some number. -/
def reportsFilter : Predicate :=
  .group .and [.simple "id" .gt (.int 7),
    .quantified "reports" .any (.simple "manager" .eq (.int 7))]

/-- The conditions and orders for employees serve for directors. -/
theorem inheritance_transparent_directors :
    directors.filterText "director" reportsFilter =
        .ok "Number gt 7 and Reports/any(f0:f0/Manager/Number eq 7)" ∧
      ∃ test, Test.ofPredicate directorSchema reportsFilter "director" = .ok test ∧
        test.passes .standard [("id", .int 8),
          ("reports", .list [.record [("id", .int 9), ("manager", .record [("id", .int 7)])]])] =
          true := by
  obtain ⟨hfilter, _, htest, _⟩ := @inheritance_transparent "director" "employee" _ directors
    acyclic_directorSchema onlyAdds_director
  refine ⟨hfilter _ _ (by decide +kernel), _, htest _ _ rfl, ?_⟩
  decide +kernel

end Remote.Context

end EntityQuery
