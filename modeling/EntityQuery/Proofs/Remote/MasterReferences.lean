import EntityQuery.Proofs.Remote.MasterKeys
import EntityQuery.Proofs.Remote.Meaning
import EntityQuery.Proofs.Rows.Chains

/-!
# Masters that stand for themselves

Only against a value does a relationship to one record turn into the key of that record in
requests. As a sort key, as the subject of a text search, and next to another path it is written as
it is, and the key below it is written with its own name behind that. When records are tested or
sorted the two read the same scalar in these places too.
-/

namespace EntityQuery

/-- A comparison of two operands, plain or, if it is said whether calendar dates are meant, of
dates. -/
def Predicate.comparing (left : Operand) (op : Comparison) (right : Operand) :
    Option Bool → Predicate
  | none => compare left op right
  | some timeless => compareDates left op right timeless

/-- A place in a filter at which a path is not compared with a value. -/
inductive Place where
  /-- The subject of a search for a text. -/
  | contains (text : String)
  /-- The left side of a comparison with another path. -/
  | left (op : Comparison) (other : String) (timeless : Option Bool)
  /-- The right side of a comparison with another path. -/
  | right (other : String) (op : Comparison) (timeless : Option Bool)

/-- The predicate with a path in a place. -/
def Place.fill (path : String) : Place → Predicate
  | contains text => .contains path text
  | left op other timeless => .comparing (.field path) op (.field other) timeless
  | right other op timeless => .comparing (.field other) op (.field path) timeless

/-- Two texts have the same in front of and behind a part of each, or one fault stands for both. -/
def SameAround (part other : String) (first second : Except Fault String) : Prop :=
  ∃ around : Except Fault (String × String),
    (first = around.map fun parts => parts.1 ++ part ++ parts.2) ∧
      second = around.map fun parts => parts.1 ++ other ++ parts.2

namespace Remote

/-- A reference with one more name is written with a slash and that name behind it. -/
theorem Reference.text_concat {binder? : Option String} {names : List String} (hne : names ≠ [])
    (name : String) : (Reference.mk binder? (names ++ [name])).text =
      (Reference.mk binder? names).text ++ "/" ++ name := by
  have hnames : String.intercalate "/" (names ++ [name]) =
      String.intercalate "/" names ++ "/" ++ name := by
    rw [String.intercalate_append_of_ne_nil hne (List.cons_ne_nil _ _),
      String.intercalate_singleton]
  cases binder? with
  | none => exact hnames
  | some bound => simp only [Reference.text, hnames, String.append_assoc]

namespace Context

variable {context : Context} {scope : Scope} {type path : String} {chain : List Field}
  {field key : Field}

/-- The reference of a path is made of the remote names along it. -/
theorem reference_of_resolveEnd
    (h : context.schema.resolveEnd scope.entityType path = .ok (chain, field)) :
    context.reference scope path = .ok (⟨scope.binder?, chain.map context.remoteName⟩, field) := by
  rw [reference, h]
  rfl

/-- A path next to another one is only looked up. -/
theorem resolveOperand_field_field (scope : Scope) (other path : String) :
    context.resolveOperand scope (.field other) (.field path) =
      (context.reference scope path).map fun found => .field found.1 found.2 := by
  rw [resolveOperand]
  cases context.reference scope path with
  | error fault => rfl
  | ok found => simp [isSolidLiteral, bind, Except.bind, Except.map, pure, Except.pure]

/-- A comparison of two paths has their references, taken as dates if calendar dates are meant,
as its sides. -/
theorem expressionWithin_comparing (left right : String) (op : Comparison)
    (timeless : Option Bool) :
    context.expressionWithin (.comparing (.field left) op (.field right) timeless) scope = (do
      let leftFound ← context.reference scope left
      let rightFound ← context.reference scope right
      return .comparison (.reference leftFound.1 (timeless == some true)) op
        (.reference rightFound.1 (timeless == some true))) := by
  have hcomparison : context.expressionWithin
      (.comparing (.field left) op (.field right) timeless) scope =
        context.comparison scope (.field left) op (.field right) timeless := by
    cases timeless <;> rfl
  rw [hcomparison, comparison, resolveOperand_field_field, resolveOperand_field_field]
  cases context.reference scope left with
  | error fault => rfl
  | ok leftFound =>
    cases context.reference scope right with
    | error fault => rfl
    | ok rightFound => rfl

/-- Around a reference on a side of a comparison stands the same whichever it is. -/
theorem exists_around_side (dateOnly : Bool) : ∃ front back : String, ∀ reference : Reference,
    (Side.reference reference dateOnly).text = front ++ reference.text ++ back := by
  cases dateOnly with
  | false => exact ⟨"", "", fun reference => by simp [Side.text]⟩
  | true => exact ⟨"date(", ")", fun reference => rfl⟩

/-- So it does around the subject of a search for a text. -/
theorem exists_around_subject (caseless : Bool) : ∃ front back : String,
    ∀ reference : Reference, searchSubject reference caseless =
      front ++ reference.text ++ back := by
  cases caseless with
  | false => exact ⟨"", "", fun reference => by simp [searchSubject]⟩
  | true => exact ⟨"tolower(", ")", fun reference => rfl⟩

/-- The text of a comparison. -/
theorem text_comparison (left : Side) (op : Comparison) (right : Side) :
    (Expression.comparison left op right).text =
      left.text ++ " " ++ operatorWord op ++ " " ++ right.text := rfl

/-- The text of a search for a text. -/
theorem text_contains {text : String} {reference : Reference}
    (h : context.reference scope path = .ok (reference, field)) :
    (context.expressionWithin (.contains path text) scope).map Expression.text =
      .ok ("contains(" ++ searchSubject reference context.settings.caselessContains ++ "," ++
        Text.quote (if context.settings.caselessContains then Text.lowercase text else text) ++
        ")") := by
  rw [expressionWithin, containsExpression, h]
  rfl

/-- Around the reference of the path in a place stands the same whichever it is. -/
theorem exists_around (context : Context) (scope : Scope) (place : Place) :
    ∃ around : Except Fault (String × String), ∀ {path reference field},
      context.reference scope path = .ok (reference, field) →
        (context.expressionWithin (place.fill path) scope).map Expression.text =
          around.map fun parts => parts.1 ++ reference.text ++ parts.2 := by
  cases place with
  | contains text =>
    obtain ⟨front, back, hsubject⟩ := exists_around_subject context.settings.caselessContains
    refine ⟨.ok ("contains(" ++ front, back ++ "," ++ Text.quote
      (if context.settings.caselessContains then Text.lowercase text else text) ++ ")"),
      fun hpath => ?_⟩
    rw [Place.fill, text_contains hpath, hsubject]
    simp only [Except.map, String.append_assoc]
  | left op other timeless =>
    obtain ⟨front, back, hside⟩ := exists_around_side (timeless == some true)
    refine ⟨(context.reference scope other).map fun found => (front, back ++ " " ++
      operatorWord op ++ " " ++ (Side.reference found.1 (timeless == some true)).text),
      fun hpath => ?_⟩
    rw [Place.fill, expressionWithin_comparing, hpath, ok_bind]
    cases context.reference scope other with
    | error fault => rfl
    | ok found =>
      rw [ok_bind]
      simp only [pure, Except.pure, Except.map, text_comparison, hside, String.append_assoc]
  | right other op timeless =>
    obtain ⟨front, back, hside⟩ := exists_around_side (timeless == some true)
    refine ⟨(context.reference scope other).map fun found =>
      ((Side.reference found.1 (timeless == some true)).text ++ " " ++ operatorWord op ++ " " ++
        front, back), fun hpath => ?_⟩
    rw [Place.fill, expressionWithin_comparing, hpath]
    cases context.reference scope other with
    | error fault => rfl
    | ok found =>
      rw [ok_bind, ok_bind]
      simp only [pure, Except.pure, Except.map, text_comparison, hside, String.append_assoc]

end Context

end Remote

namespace Rows

variable {schema : Schema} {type : String}

/-- However the sides of a comparison are taken, its test is made alike. -/
theorem exists_reading (schema : Schema) (type : String) (timeless : Option Bool) :
    ∃ reading, ∀ left op right,
      Test.ofPredicate schema (.comparing left op right timeless) type =
        Test.ofComparison schema type left op right reading := by
  cases timeless with
  | none => exact ⟨.values, fun _ _ _ => rfl⟩
  | some timeless => exact ⟨if timeless then .days else .moments, fun _ _ _ => rfl⟩

/-- The test of a predicate depends on the path in a place by what is read along it. -/
theorem exists_build (schema : Schema) (type : String) (place : Place) :
    ∃ build : Except Fault (List String → Test),
      (∀ {path segments}, checkedPath schema type path = .ok segments →
        Test.ofPredicate schema (place.fill path) type = build.map fun make => make segments) ∧
      ∀ {make}, build = .ok make → ∀ {style record segments others},
        Record.read record segments = Record.read record others →
          (make segments).passes style record = (make others).passes style record := by
  cases place with
  | contains text =>
    refine ⟨.ok fun segments => .contains segments (Text.lowercase text), fun hpath => ?_, ?_⟩
    · rw [Place.fill, Test.ofPredicate, hpath]
      rfl
    · rintro make hmake style record segments others hread
      obtain rfl := Except.ok.inj hmake
      simp only [Test.passes, hread]
  | left op other timeless =>
    obtain ⟨reading, htest⟩ := exists_reading schema type timeless
    refine ⟨(checkedPath schema type other).map fun back segments =>
      .compare (.path segments) op (.path back) reading, fun hpath => ?_, ?_⟩
    · rw [Place.fill, htest, Test.ofComparison, Source.ofOperand, hpath, Source.ofOperand]
      cases checkedPath schema type other <;> rfl
    · rintro make hmake style record segments others hread
      obtain ⟨back, _, rfl⟩ := map_eq_ok_iff.mp hmake
      simp only [Test.passes, Source.read, hread]
  | right other op timeless =>
    obtain ⟨reading, htest⟩ := exists_reading schema type timeless
    refine ⟨(checkedPath schema type other).map fun front segments =>
      .compare (.path front) op (.path segments) reading, fun hpath => ?_, ?_⟩
    · rw [Place.fill, htest, Test.ofComparison, Source.ofOperand, Source.ofOperand, hpath]
      cases checkedPath schema type other <;> rfl
    · rintro make hmake style record segments others hread
      obtain ⟨front, _, rfl⟩ := map_eq_ok_iff.mp hmake
      simp only [Test.passes, Source.read, hread]

/-- Two paths along which a record reads the same have the same verdict in a place. -/
theorem matches_fill_congr (place : Place) {path other : String} {segments others : List String}
    (hpath : checkedPath schema type path = .ok segments)
    (hother : checkedPath schema type other = .ok others) :
    ((place.fill path).HasTest schema type ↔ (place.fill other).HasTest schema type) ∧
      ∀ (style : DateStyle) (record : Record), record.read segments = record.read others →
        ((place.fill path).Matches schema type style record ↔
          (place.fill other).Matches schema type style record) := by
  obtain ⟨build, htest, hpasses⟩ := exists_build schema type place
  have hfirst := htest hpath
  have hsecond := htest hother
  cases hbuild : build with
  | error fault =>
    rw [hbuild] at hfirst hsecond
    simp [Predicate.HasTest, Predicate.Matches, hfirst, hsecond, Except.map]
  | ok make =>
    rw [hbuild] at hfirst hsecond
    refine ⟨⟨fun _ => ⟨_, hsecond⟩, fun _ => ⟨_, hfirst⟩⟩, fun style record hread => ?_⟩
    rw [Predicate.matches_iff_passes hfirst, Predicate.matches_iff_passes hsecond,
      hpasses hbuild hread]

/-- A key sorts by what is read along its path. -/
theorem keyOf_of_checkedPath {path : String} {segments : List String}
    (h : checkedPath schema type path = .ok segments) (direction : Option Direction) :
    Order.keyOf schema type ⟨path, direction⟩ =
      .ok ⟨segments, (SortKey.mk path direction).isDescending⟩ := by
  rw [Order.keyOf, h]
  rfl

section

variable {path : String} {segments : List String} {chain : List Field} {field key : Field}
  (hend : schema.resolveEnd type path = .ok (chain, field)) (hkind : field.kind = .belongsTo)
  (hkey : schema.key field.target = .ok key) (hsegments : Schema.pathSegments path = .ok segments)

include hend hkind hkey hsegments

/-- In a place, a relationship and the key below it have the same verdict. -/
theorem matches_fill_identityPath (place : Place) :
    ((place.fill path).HasTest schema type ↔
        (place.fill (identityPath path)).HasTest schema type) ∧
      ∀ (style : DateStyle) (record : Record), record.HasLinks segments →
        ((place.fill path).Matches schema type style record ↔
          (place.fill (identityPath path)).Matches schema type style record) := by
  have hbelow := checkedPath_of_resolveEnd (Schema.resolveEnd_identityPath hend hkind hkey)
    (Schema.pathSegments_identityPath hsegments)
  obtain ⟨htest, hmatches⟩ :=
    matches_fill_congr place (checkedPath_of_resolveEnd hend hsegments) hbelow
  refine ⟨htest, fun style record hlinks => hmatches style record ?_⟩
  exact (read_append_identityField (Schema.pathSegments_ne_nil hsegments) hlinks).1.symm

/-- As sort keys, they order in the same way. -/
theorem compare_keyOf_identityPath (direction : Option Direction) :
    ∃ first second, Order.keyOf schema type ⟨path, direction⟩ = .ok first ∧
      Order.keyOf schema type ⟨identityPath path, direction⟩ = .ok second ∧
      ∀ a b : Record, a.HasLinks segments → b.HasLinks segments →
        first.compare a b = second.compare a b := by
  have hbelow := checkedPath_of_resolveEnd (Schema.resolveEnd_identityPath hend hkind hkey)
    (Schema.pathSegments_identityPath hsegments)
  refine ⟨_, _, keyOf_of_checkedPath (checkedPath_of_resolveEnd hend hsegments) direction,
    keyOf_of_checkedPath hbelow direction, fun a b ha hb => ?_⟩
  have hne := Schema.pathSegments_ne_nil hsegments
  simp only [Key.compare, (read_append_identityField hne ha).1,
    (read_append_identityField hne hb).1]
  rfl

end

end Rows

namespace Remote.Context

open Rows

variable {context : Context} {type path : String} {chain : List Field} {field key : Field}

/-- Behind the reference of a sort key stands the same whichever it is. -/
theorem exists_behind (context : Context) (type : String) (direction : Option Direction) :
    ∃ back : String, ∀ {path reference field},
      context.reference (.root type) path = .ok (reference, field) →
        context.keyText type ⟨path, direction⟩ = .ok (reference.text ++ back) := by
  cases direction with
  | none =>
    refine ⟨"", fun hpath => ?_⟩
    rw [keyText, hpath, String.append_empty]
    rfl
  | some direction =>
    refine ⟨" " ++ direction.word, fun hpath => ?_⟩
    rw [keyText, hpath, ← String.append_assoc]
    rfl

section

variable (hend : context.schema.resolveEnd type path = .ok (chain, field))
  (hkind : field.kind = .belongsTo) (hkey : context.schema.key field.target = .ok key)

include hend hkind hkey

/-- The reference of the key below a relationship has the name of the key behind that of the
relationship. -/
theorem exists_reference_identityPath {scope : Scope} (hscope : scope.entityType = type) :
    ∃ reference below, context.reference scope path = .ok (reference, field) ∧
      context.reference scope (identityPath path) = .ok (below, key) ∧
      below.text = reference.text ++ "/" ++ context.remoteName key := by
  subst hscope
  obtain ⟨_, _, _, hlast⟩ := Schema.resolveEnd_eq_ok_iff.mp hend
  have hnames : chain.map context.remoteName ≠ [] := by
    simpa using List.ne_nil_of_mem (List.mem_of_getLast? hlast)
  refine ⟨_, _, reference_of_resolveEnd hend,
    reference_of_resolveEnd (Schema.resolveEnd_identityPath hend hkind hkey), ?_⟩
  rw [List.map_append, List.map_singleton, Reference.text_concat hnames]

/-- In a place, the key below a relationship is written in the place of the relationship. -/
theorem sameAround_fill_identityPath (place : Place) {scope : Scope}
    (hscope : scope.entityType = type) :
    ∃ reference, context.reference scope path = .ok (reference, field) ∧
      SameAround reference.text (reference.text ++ "/" ++ context.remoteName key)
        ((context.expressionWithin (place.fill path) scope).map Expression.text)
        ((context.expressionWithin (place.fill (identityPath path)) scope).map
          Expression.text) := by
  obtain ⟨reference, below, hpath, hbelow, htext⟩ :=
    exists_reference_identityPath hend hkind hkey hscope
  obtain ⟨around, hspells⟩ := exists_around context scope place
  exact ⟨reference, hpath, around, hspells hpath, htext ▸ hspells hbelow⟩

/-- So it is in a sort key. -/
theorem keyText_identityPath (direction : Option Direction) :
    ∃ reference back, context.reference (.root type) path = .ok (reference, field) ∧
      context.keyText type ⟨path, direction⟩ = .ok (reference.text ++ back) ∧
      context.keyText type ⟨identityPath path, direction⟩ =
        .ok (reference.text ++ "/" ++ context.remoteName key ++ back) := by
  have hscope : (Scope.root type).entityType = type := rfl
  obtain ⟨reference, below, hpath, hbelow, htext⟩ :=
    exists_reference_identityPath hend hkind hkey hscope
  obtain ⟨back, hspells⟩ := exists_behind context type direction
  exact ⟨reference, back, hpath, hspells hpath, htext ▸ hspells hbelow⟩

end

/-- In a place where it is not compared with a value and as a sort key, a relationship to one
record is written as it is in requests, and the key below it with a slash and its own name behind
that. In memory the two have the same verdict in that place, and sort alike, on records in which
the relationships along the path are missing, null, or records whose identity is missing or a
scalar. -/
theorem relationship_written_as_itself
    (hend : context.schema.resolveEnd type path = .ok (chain, field))
    (hkind : field.kind = .belongsTo)
    (hregistered : (context.schema.lineage field.target).missing = none) :
    ∃ key segments, context.schema.key field.target = .ok key ∧
      Schema.pathSegments path = .ok segments ∧
      (∀ (place : Place) (scope : Scope), scope.entityType = type →
        ∃ reference, context.reference scope path = .ok (reference, field) ∧
          SameAround reference.text (reference.text ++ "/" ++ context.remoteName key)
            ((context.expressionWithin (place.fill path) scope).map Expression.text)
            ((context.expressionWithin (place.fill (identityPath path)) scope).map
              Expression.text)) ∧
      (∀ direction, ∃ reference back,
        context.reference (.root type) path = .ok (reference, field) ∧
          context.keyText type ⟨path, direction⟩ = .ok (reference.text ++ back) ∧
          context.keyText type ⟨identityPath path, direction⟩ =
            .ok (reference.text ++ "/" ++ context.remoteName key ++ back)) ∧
      (∀ place : Place,
        ((place.fill path).HasTest context.schema type ↔
            (place.fill (identityPath path)).HasTest context.schema type) ∧
          ∀ (style : DateStyle) (record : Record), record.HasLinks segments →
            ((place.fill path).Matches context.schema type style record ↔
              (place.fill (identityPath path)).Matches context.schema type style record)) ∧
      ∀ direction, ∃ first second,
        Order.keyOf context.schema type ⟨path, direction⟩ = .ok first ∧
          Order.keyOf context.schema type ⟨identityPath path, direction⟩ = .ok second ∧
          ∀ a b : Record, a.HasLinks segments → b.HasLinks segments →
            first.compare a b = second.compare a b := by
  obtain ⟨key, hkey⟩ := Schema.exists_key_of_missing hregistered
  obtain ⟨segments, hsegments, _⟩ := Schema.resolveEnd_eq_ok_iff.mp hend
  exact ⟨key, segments, hkey, hsegments,
    fun place _ hscope => sameAround_fill_identityPath hend hkind hkey place hscope,
    keyText_identityPath hend hkind hkey, matches_fill_identityPath hend hkind hkey hsegments,
    compare_keyOf_identityPath hend hkind hkey hsegments⟩

/-- A search for a text in the manager of an employee names the manager, and one in the key of the
manager names the key. In memory both look at the key. -/
theorem manager_written_as_itself :
    SameAround "Manager" "Manager/id"
        (sample.filterText "employee" (.contains "manager" "e2"))
        (sample.filterText "employee" (.contains "manager.id" "e2")) ∧
      ∀ (style : DateStyle) (record : Record), record.HasLinks ["manager"] →
        ((Predicate.contains "manager" "e2").Matches Sample.schema "employee" style record ↔
          (Predicate.contains "manager.id" "e2").Matches Sample.schema "employee" style
            record) := by
  have hend : sample.schema.resolveEnd "employee" "manager" =
      .ok ([.related "employee" { name := "manager", kind := .belongsTo, target := "employee" }],
        .related "employee" { name := "manager", kind := .belongsTo, target := "employee" }) := by
    decide +kernel
  have hpath : identityPath "manager" = "manager.id" := by decide +kernel
  obtain ⟨key, segments, hkey, hsegments, hplaces, _, hmatches, _⟩ :=
    relationship_written_as_itself hend rfl (by decide +kernel)
  obtain rfl : Field.key "employee" "id" .guid = key := by
    have hfound : sample.schema.key "employee" = .ok (.key "employee" "id" .guid) := by
      decide +kernel
    exact Except.ok.inj (hfound.symm.trans hkey)
  obtain rfl : ["manager"] = segments := by
    have hfound : Schema.pathSegments "manager" = .ok ["manager"] := by decide +kernel
    exact Except.ok.inj (hfound.symm.trans hsegments)
  obtain ⟨reference, hreference, htexts⟩ := hplaces (.contains "e2") (.root "employee") rfl
  obtain rfl : (⟨none, ["Manager"]⟩ : Reference) = reference := by
    have hfound := @reference_of_resolveEnd sample (.root "employee") "manager" _ _ hend
    exact congrArg Prod.fst (Except.ok.inj (hfound.symm.trans hreference))
  rw [hpath] at htexts hmatches
  exact ⟨htexts, (hmatches (.contains "e2")).2⟩

/-- So neither in a search for a text nor next to another path nor as a sort key is a manager put
into the words for the key of the manager. -/
theorem manager_ne_manager_key :
    sample.schema.resolveEnd "employee" "manager" =
        .ok ([.related "employee" { name := "manager", kind := .belongsTo, target := "employee" }],
          .related "employee" { name := "manager", kind := .belongsTo, target := "employee" }) ∧
      (sample.schema.models.get? "employee").isSome = true ∧
      sample.filterText "employee" (.contains "manager" "e2") ≠
        sample.filterText "employee" (.contains "manager.id" "e2") ∧
      sample.filterText "employee" (.compare (.field "manager") .eq (.field "name")) ≠
        sample.filterText "employee" (.compare (.field "manager.id") .eq (.field "name")) ∧
      sample.orderText "employee" ⟨[⟨"manager", none⟩]⟩ ≠
        sample.orderText "employee" ⟨[⟨"manager.id", none⟩]⟩ := by
  decide +kernel

end Remote.Context

end EntityQuery
