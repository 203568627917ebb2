import EntityQuery.Proofs.Remote.Terms

/-!
# The variables of a filter

A quantifier binds a variable that tells how many quantifiers are around it. So the variables
along nested quantifiers are numbered without a gap and differ from each other, whatever they
begin with. Every reference is written in the scope that it stands in: in the body of a
quantifier it begins with the variable of this quantifier, and outside of all with none.
-/

namespace EntityQuery.Remote

/-- Numbers that are written alike are equal. -/
theorem toString_injective : Function.Injective (toString : Nat → String) := by
  intro a b h
  have hdigits : Nat.toDigits 10 a = Nat.toDigits 10 b := by
    simpa only [Nat.toString_eq_repr, Nat.toList_repr] using congrArg String.toList h
  calc
    a = Nat.ofDigitChars 10 (Nat.toDigits 10 a) 0 := Nat.ofDigitChars_ten_toDigits.symm
    _ = Nat.ofDigitChars 10 (Nat.toDigits 10 b) 0 := by rw [hdigits]
    _ = b := Nat.ofDigitChars_ten_toDigits

/-- The reference of a side that is not a literal. -/
def Side.reference? : Side → Option Reference
  | .reference field _ => some field
  | .literal _ => none

/-- What a type assertion is about lies in the scope of a variable, or outside of all. -/
def Subject.ScopedBy (binder? : Option String) : Subject → Prop
  | .record => binder? = none
  | .item bound => binder? = some bound
  | .value reference => reference.binder? = binder?

namespace Expression

/-- Outside of the quantifiers in it, an expression refers only by this variable, or by none;
and the body of every quantifier refers by the variable of that quantifier. -/
inductive ScopedBy : Option String → Expression → Prop where
  /-- Both sides of a comparison that are references refer so. -/
  | comparison {binder? : Option String} {left right : Side} {op : Comparison}
    (hleft : ∀ reference, left.reference? = some reference → reference.binder? = binder?)
    (hright : ∀ reference, right.reference? = some reference → reference.binder? = binder?) :
    ScopedBy binder? (.comparison left op right)
  /-- The reference of a text search does. -/
  | contains {binder? : Option String} {reference : Reference} {caseless : Bool} {text : String}
    (href : reference.binder? = binder?) : ScopedBy binder? (.contains reference caseless text)
  /-- The reference of a shape test does. -/
  | intersects {binder? : Option String} {reference : Reference} {kind : ShapeKind}
    {shape : String} (href : reference.binder? = binder?) :
    ScopedBy binder? (.intersects reference kind shape)
  /-- The reference of a distance test does. -/
  | distance {binder? : Option String} {reference : Reference} {kind : ShapeKind}
    {shape : String} {op : Comparison} {limit : Float} (href : reference.binder? = binder?) :
    ScopedBy binder? (.distance reference kind shape op limit)
  /-- The subject of a type assertion is named so. -/
  | isOf {binder? : Option String} {subject : Subject} {typeName : String}
    (hsubject : subject.ScopedBy binder?) : ScopedBy binder? (.isOf subject typeName)
  /-- All members of a group lie in the same scope. -/
  | group {binder? : Option String} {connective : Connective} {members : List Expression}
    (hmembers : ∀ member ∈ members, ScopedBy binder? member) :
    ScopedBy binder? (.group connective members)
  /-- A negated expression lies in the same scope. -/
  | not {binder? : Option String} {body : Expression} (hbody : ScopedBy binder? body) :
    ScopedBy binder? (.not body)
  /-- The collection of a quantifier lies in the scope around it, the body in its own. -/
  | quantified {binder? : Option String} {reference : Reference} {quantifier : Quantifier}
    {bound : String} {body : Expression} (href : reference.binder? = binder?)
    (hbody : ScopedBy (some bound) body) :
    ScopedBy binder? (.quantified reference quantifier bound body)
  /-- A fixed verdict refers to nothing. -/
  | const {binder? : Option String} {verdict : Bool} : ScopedBy binder? (.const verdict)

/-- A chain of nested quantifiers of an expression, each in the body of the one before, binds
these variables, the outermost first. -/
inductive BindsAlong : Expression → List String → Prop where
  /-- The chain ends. -/
  | stop (expression : Expression) : BindsAlong expression []
  /-- The chain goes on in a member of a group. -/
  | group {connective : Connective} {members : List Expression} {member : Expression}
    {chain : List String} (hmember : member ∈ members) (hchain : BindsAlong member chain) :
    BindsAlong (.group connective members) chain
  /-- The chain goes on in a negated expression. -/
  | not {body : Expression} {chain : List String} (hchain : BindsAlong body chain) :
    BindsAlong (.not body) chain
  /-- The chain goes on in the body of a quantifier. -/
  | quantified {reference : Reference} {quantifier : Quantifier} {bound : String}
    {body : Expression} {chain : List String} (hchain : BindsAlong body chain) :
    BindsAlong (.quantified reference quantifier bound body) (bound :: chain)

end Expression

namespace Context

variable {context : Context} {scope : Scope}

/-- The variables of so many nested quantifiers, counted from a depth on. -/
def boundVariables (context : Context) (depth count : Nat) : List String :=
  (List.range' depth count).map fun i => context.settings.lambdaPrefix ++ toString i

/-- The variables of nested quantifiers differ, whatever they begin with. -/
theorem nodup_boundVariables (context : Context) (depth count : Nat) :
    (context.boundVariables depth count).Nodup := by
  refine List.Nodup.map (fun i j h => toString_injective ?_) List.nodup_range'
  exact (String.append_right_inj _).mp h

/-- An expression stands in a scope: it refers by the variable of the scope, and its nested
quantifiers bind the variables from the depth of the scope on. -/
structure StandsIn (context : Context) (scope : Scope) (expression : Expression) : Prop where
  /-- It refers by the variable of the scope. -/
  scopedBy : expression.ScopedBy scope.binder?
  /-- Nested quantifiers bind the variables from the depth of the scope on. -/
  binds : ∀ chain, expression.BindsAlong chain →
    chain = context.boundVariables scope.depth chain.length

/-- A reference begins with the variable of its scope. -/
theorem binder?_of_reference {path : String} {reference : Reference} {field : Field}
    (h : context.reference scope path = .ok (reference, field)) :
    reference.binder? = scope.binder? := by
  obtain ⟨⟨chain, last⟩, _, h⟩ := bind_eq_ok_iff.mp h
  obtain ⟨rfl, _⟩ := Prod.mk.inj (pure_eq_ok_iff.mp h)
  rfl

/-- So does the reference of an operand, also where it goes on to the key of a record. -/
theorem binder?_of_resolveOperand {other operand : Operand} {reference : Reference}
    {field : Field}
    (h : context.resolveOperand scope other operand = .ok (.field reference field)) :
    reference.binder? = scope.binder? := by
  cases operand with
  | literal value => cases h
  | field path =>
    obtain ⟨found, last, hfound, ⟨_, heq⟩ | ⟨_, _, key, _, heq⟩⟩ := resolveOperand_field_eq_ok h
    · obtain ⟨rfl, rfl⟩ := Resolved.field.inj heq
      exact binder?_of_reference hfound
    · obtain ⟨rfl, rfl⟩ := Resolved.field.inj heq
      have hbinder : found.binder? = scope.binder? := binder?_of_reference hfound
      exact hbinder

/-- A side that is written as a reference was looked up as this reference. -/
theorem exists_field_of_side {timeless : Option Bool} {other resolved : Resolved} {side : Side}
    {reference : Reference} (h : context.side timeless other resolved = .ok side)
    (hreference : side.reference? = some reference) :
    ∃ field, resolved = .field reference field := by
  cases resolved with
  | field found field =>
    obtain rfl := Except.ok.inj h
    obtain rfl := Option.some.inj hreference
    exact ⟨field, rfl⟩
  | literal value =>
    obtain ⟨literal, _, rfl⟩ := map_eq_ok_iff.mp h
    cases hreference

/-- A comparison stands in its scope. -/
theorem standsIn_of_comparison {left right : Operand} {op : Comparison} {timeless : Option Bool}
    {expression : Expression}
    (h : context.comparison scope left op right timeless = .ok expression) :
    context.StandsIn scope expression := by
  obtain ⟨resolvedLeft, hleft, h⟩ := bind_eq_ok_iff.mp h
  obtain ⟨resolvedRight, hright, h⟩ := bind_eq_ok_iff.mp h
  obtain ⟨leftSide, hleftSide, h⟩ := bind_eq_ok_iff.mp h
  obtain ⟨rightSide, hrightSide, h⟩ := bind_eq_ok_iff.mp h
  obtain rfl := pure_eq_ok_iff.mp h
  refine ⟨.comparison (fun reference hreference => ?_) (fun reference hreference => ?_), ?_⟩
  · obtain ⟨field, rfl⟩ := exists_field_of_side hleftSide hreference
    exact binder?_of_resolveOperand hleft
  · obtain ⟨field, rfl⟩ := exists_field_of_side hrightSide hreference
    exact binder?_of_resolveOperand hright
  · rintro chain ⟨⟩
    rfl

/-- A text search stands in its scope. -/
theorem standsIn_of_containsExpression {path text : String} {expression : Expression}
    (h : context.containsExpression scope path text = .ok expression) :
    context.StandsIn scope expression := by
  obtain ⟨⟨reference, field⟩, hreference, h⟩ := bind_eq_ok_iff.mp h
  obtain rfl := pure_eq_ok_iff.mp h
  refine ⟨.contains (binder?_of_reference hreference), ?_⟩
  rintro chain ⟨⟩
  rfl

/-- A shape test stands in its scope. -/
theorem standsIn_of_shapeExpression {kind : ShapeKind} {path : String} {test : ShapeTest}
    {expression : Expression} (h : context.shapeExpression scope kind path test = .ok expression) :
    context.StandsIn scope expression := by
  obtain ⟨⟨reference, field⟩, hreference, h⟩ := bind_eq_ok_iff.mp h
  have hbinder := binder?_of_reference hreference
  cases test with
  | intersects shape =>
    obtain rfl := pure_eq_ok_iff.mp h
    refine ⟨.intersects hbinder, ?_⟩
    rintro chain ⟨⟩
    rfl
  | distance shape op limit =>
    obtain rfl := pure_eq_ok_iff.mp h
    refine ⟨.distance hbinder, ?_⟩
    rintro chain ⟨⟩
    rfl

/-- A type assertion stands in its scope, also one about the records of the scope. -/
theorem standsIn_of_isOfExpression {subject : Option String} {typeName : String}
    {expression : Expression}
    (h : context.isOfExpression scope subject typeName = .ok expression) :
    context.StandsIn scope expression := by
  obtain ⟨asserted, typed, rfl, hsubject⟩ : ∃ asserted typed,
      expression = .isOf asserted typed ∧ asserted.ScopedBy scope.binder? := by
    unfold isOfExpression at h
    cases subject with
    | some path =>
      obtain ⟨⟨reference, field⟩, hreference, h⟩ := bind_eq_ok_iff.mp h
      exact ⟨_, _, (pure_eq_ok_iff.mp h).symm, binder?_of_reference hreference⟩
    | none =>
      cases hbinder : scope.binder? with
      | none =>
        simp only [hbinder, pure_eq_ok_iff] at h
        exact ⟨_, _, h.symm, rfl⟩
      | some bound =>
        simp only [hbinder, pure_eq_ok_iff] at h
        exact ⟨_, _, h.symm, rfl⟩
  refine ⟨.isOf hsubject, ?_⟩
  rintro chain ⟨⟩
  rfl

mutual

/-- The expression of a predicate stands in its scope. The body of a quantifier stands one level
deeper, and its chains go on counting from there. -/
theorem standsIn_of_expressionWithin :
    ∀ (predicate : Predicate) {scope : Scope} {expression : Expression},
      context.expressionWithin predicate scope = .ok expression →
        context.StandsIn scope expression
  | .compare left op right, scope, expression, h => standsIn_of_comparison h
  | .compareDates left op right timeless, scope, expression, h => standsIn_of_comparison h
  | .contains path text, scope, expression, h => standsIn_of_containsExpression h
  | .shape kind path test, scope, expression, h => standsIn_of_shapeExpression h
  | .isOf subject typeName, scope, expression, h => standsIn_of_isOfExpression h
  | .const verdict, scope, expression, h => by
    obtain rfl := Except.ok.inj h
    refine ⟨.const, ?_⟩
    rintro chain ⟨⟩
    rfl
  | .not body, scope, expression, h => by
    obtain ⟨inner, hinner, h⟩ := bind_eq_ok_iff.mp h
    obtain rfl := pure_eq_ok_iff.mp h
    obtain ⟨hscoped, hbinds⟩ := standsIn_of_expressionWithin body hinner
    refine ⟨.not hscoped, fun chain hchain => ?_⟩
    cases hchain with
    | stop => rfl
    | not hchain => exact hbinds chain hchain
  | .group connective members, scope, expression, h => by
    obtain ⟨expressions, hexpressions, h⟩ := bind_eq_ok_iff.mp h
    obtain rfl := pure_eq_ok_iff.mp h
    have hmembers := standsIn_of_membersWithin members hexpressions
    refine ⟨.group fun member hmember => (hmembers member hmember).scopedBy, fun chain hchain => ?_⟩
    cases hchain with
    | stop => rfl
    | group hmember hchain => exact (hmembers _ hmember).binds chain hchain
  | .quantified path quantifier body, scope, expression, h => by
    obtain ⟨collection, _, h⟩ := bind_eq_ok_iff.mp h
    obtain ⟨⟨reference, field⟩, hreference, h⟩ := bind_eq_ok_iff.mp h
    obtain ⟨inner, hinner, h⟩ := bind_eq_ok_iff.mp h
    obtain rfl := pure_eq_ok_iff.mp h
    obtain ⟨hscoped, hbinds⟩ := standsIn_of_expressionWithin body hinner
    refine ⟨.quantified (binder?_of_reference hreference) hscoped, fun chain hchain => ?_⟩
    cases hchain with
    | stop => rfl
    | @quantified _ _ _ _ chain hchain =>
      rw [List.length_cons, boundVariables, List.range'_succ, List.map_cons]
      exact congrArg _ (hbinds chain hchain)

/-- The expressions of the members of a group stand in the scope of the group. -/
theorem standsIn_of_membersWithin :
    ∀ (members : List Predicate) {scope : Scope} {expressions : List Expression},
      context.membersWithin members scope = .ok expressions →
        ∀ expression ∈ expressions, context.StandsIn scope expression
  | [], scope, expressions, h => by
    obtain rfl := Except.ok.inj h
    simp
  | member :: members, scope, expressions, h => by
    obtain ⟨first, hfirst, h⟩ := bind_eq_ok_iff.mp h
    obtain ⟨others, hothers, h⟩ := bind_eq_ok_iff.mp h
    obtain rfl := pure_eq_ok_iff.mp h
    exact List.forall_mem_cons.mpr ⟨standsIn_of_expressionWithin member hfirst,
      standsIn_of_membersWithin members hothers⟩

end

/-- Along nested quantifiers of a filter all bound variables differ. Inside of a quantifier
every reference begins with the variable of the innermost one, and every type assertion about
the records at hand names it; outside of all quantifiers none has a variable. -/
theorem filterText_scoped {entityType text : String} {predicate : Predicate}
    (h : context.filterText entityType predicate = .ok text) :
    ∃ expression, context.expression entityType predicate = .ok expression ∧
      expression.text = text ∧ (∀ chain, expression.BindsAlong chain → chain.Nodup) ∧
        expression.ScopedBy none := by
  obtain ⟨expression, hexpression, rfl⟩ := map_eq_ok_iff.mp h
  obtain ⟨hscoped, hbinds⟩ := standsIn_of_expressionWithin predicate hexpression
  refine ⟨expression, hexpression, rfl, fun chain hchain => ?_, hscoped⟩
  rw [hbinds chain hchain]
  exact context.nodup_boundVariables _ _

/-- Requests for customers with their orders, which have lines in turn. -/
def sales : Context where
  settings := {}
  schema := { models := [
    ("customer", {
      name := "customer",
      relationships := [{ name := "orders", kind := .hasMany, target := "order" }] }),
    ("line", { name := "line", attributes := [⟨"price", .number, none⟩] }),
    ("order", {
      name := "order", attributes := [⟨"paid", .boolean, none⟩],
      relationships := [{ name := "lines", kind := .hasMany, target := "line" }] })] }

/-- Some order is not paid, and all its lines are gifts or cheap. -/
def salesFilter : Predicate :=
  .quantified "orders" .any (.group .and [.not (.simple "paid" .eq (.bool true)),
    .quantified "lines" .all (.group .or [.isOf none "gift", .simple "price" .lt (.int 10)])])

/-- The text of that filter, with a variable for each of the quantifiers. -/
def salesText : String :=
  "Orders/any(f0:not (f0/Paid eq true) and f0/Lines/all(f1:isof(f1,'gift') or f1/Price lt 10))"

theorem filterText_scoped_sales :
    sales.filterText "customer" salesFilter = .ok salesText ∧
      ∃ expression, sales.expression "customer" salesFilter = .ok expression ∧
        expression.text = salesText ∧ (∀ chain, expression.BindsAlong chain → chain.Nodup) ∧
          expression.ScopedBy none := by
  have htext : sales.filterText "customer" salesFilter = .ok salesText := by decide +kernel
  exact ⟨htext, filterText_scoped htext⟩

end Context

end EntityQuery.Remote
