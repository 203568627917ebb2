import EntityQuery.Proofs.Query.Known
import EntityQuery.Proofs.Remote.Acceptance
import EntityQuery.Proofs.Rows.Stages

/-!
# Which built queries run

A built query runs on records exactly if what its filter and its order read can be read: a path
must go on after relationships to one record only, and the path of a quantifier must end at a
collection, from whose records the paths of its body begin. A filter or an order along any other
path can be fetched but not tested. Looking it up stops at the relationship in question; there
is no other fault, because every path of a built query is known.
-/

namespace EntityQuery

/-- What an operand reads can be read in a record of a type. -/
def Operand.RunsOn (schema : Schema) (type : String) : Operand → Prop
  | field path => schema.HasFieldAt type path
  | literal _ => True

namespace Predicate

/-- A condition holds of every leaf of a group if it holds of every leaf of the members. -/
theorem everyLeaf_group_iff {P : Predicate → Prop} (connective : Connective)
    (members : List Predicate) :
    EveryLeaf P (group connective members) ↔ ∀ member ∈ members, EveryLeaf P member := by
  rw [EveryLeaf]
  induction members with
  | nil => simp [EveryLeafOf]
  | cons member members ih => rw [EveryLeafOf, ih, List.forall_mem_cons]

mutual

/-- What a predicate reads can be read in a record of a type. A quantifier ranges over a
collection, and its body reads from the records in it. Shapes are not read. -/
def RunsOn (schema : Schema) : Predicate → String → Prop
  | compare left _ right, type | compareDates left _ right _, type =>
    left.RunsOn schema type ∧ right.RunsOn schema type
  | contains path _, type => schema.HasFieldAt type path
  | shape .., _ | const _, _ => True
  | isOf .., _ => False
  | group _ members, type => AllRunOn schema members type
  | quantified path _ body, type =>
    ∃ segments field, Schema.pathSegments path = .ok segments ∧
      (schema.FieldAt type segments field ∧ field.kind = .hasMany) ∧
        RunsOn schema body field.target
  | not body, type => RunsOn schema body type
termination_by structural predicate => predicate

/-- What some predicates read can be read. -/
def AllRunOn (schema : Schema) : List Predicate → String → Prop
  | [], _ => True
  | member :: members, type => RunsOn schema member type ∧ AllRunOn schema members type
termination_by structural members => members

end

/-- What a group reads can be read if what the members read can be. -/
theorem runsOn_group_iff {schema : Schema} {type : String} (connective : Connective)
    (members : List Predicate) :
    RunsOn schema (group connective members) type ↔
      ∀ member ∈ members, RunsOn schema member type := by
  rw [RunsOn]
  induction members with
  | nil => simp [AllRunOn]
  | cons member members ih => rw [AllRunOn, ih, List.forall_mem_cons]

mutual

/-- The paths that tests of a predicate read are known, where the paths in the body of a
quantifier follow the path of its collection. -/
def Reads : Predicate → (List String → Prop) → Prop
  | compare left _ right, known | compareDates left _ right _, known =>
    ∀ path ∈ left.path?.toList ++ right.path?.toList,
      ∃ segments, Schema.pathSegments path = .ok segments ∧ known segments
  | contains path _, known => ∃ segments, Schema.pathSegments path = .ok segments ∧ known segments
  | shape .., _ | isOf .., _ | const _, _ => True
  | group _ members, known => AllRead members known
  | quantified path _ body, known =>
    ∃ segments, Schema.pathSegments path = .ok segments ∧ known segments ∧
      Reads body fun back => known (segments ++ back)
  | not body, known => Reads body known
termination_by structural predicate => predicate

/-- The paths that tests of some predicates read are known. -/
def AllRead : List Predicate → (List String → Prop) → Prop
  | [], _ => True
  | member :: members, known => Reads member known ∧ AllRead members known
termination_by structural members => members

end

/-- A group reads what its members read. -/
theorem reads_group_iff {known : List String → Prop} (connective : Connective)
    (members : List Predicate) :
    Reads (group connective members) known ↔ ∀ member ∈ members, Reads member known := by
  rw [Reads]
  induction members with
  | nil => simp [AllRead]
  | cons member members ih => rw [AllRead, ih, List.forall_mem_cons]

mutual

/-- Of known paths less may be known. -/
theorem Reads.imp : ∀ (predicate : Predicate) {known weaker : List String → Prop},
    Reads predicate known → (∀ segments, known segments → weaker segments) →
      Reads predicate weaker
  | .compare left op right, known, weaker, h, himp
  | .compareDates left op right timeless, known, weaker, h, himp => by
    intro path hpath
    obtain ⟨segments, hsegments, hknown⟩ := h path hpath
    exact ⟨segments, hsegments, himp segments hknown⟩
  | .contains path text, _, _, ⟨segments, hsegments, hknown⟩, himp =>
    ⟨segments, hsegments, himp segments hknown⟩
  | .shape .., _, _, _, _ | .isOf .., _, _, _, _ | .const _, _, _, _, _ => trivial
  | .group connective members, _, _, h, himp => AllRead.imp members h himp
  | .quantified path quantifier body, _, _, ⟨segments, hsegments, hknown, hbody⟩, himp =>
    ⟨segments, hsegments, himp segments hknown, Reads.imp body hbody fun back => himp _⟩
  | .not body, _, _, h, himp => Reads.imp body h himp

/-- Of known paths less may be known. -/
theorem AllRead.imp : ∀ (members : List Predicate) {known weaker : List String → Prop},
    AllRead members known → (∀ segments, known segments → weaker segments) →
      AllRead members weaker
  | [], _, _, _, _ => trivial
  | member :: members, _, _, h, himp =>
    ⟨Reads.imp member h.1 himp, AllRead.imp members h.2 himp⟩

end

mutual

/-- If all paths of a predicate below an outer path are known, those that its tests read are
known behind the segments of the outer path. -/
theorem reads_of_pathsBelow {known : List String → Prop} :
    ∀ (predicate : Predicate) {outer : String} {front : List String},
      Schema.OuterSegments outer front →
        (∀ path ∈ predicate.pathsBelow outer,
          ∃ segments, Schema.pathSegments path = .ok segments ∧ known segments) →
        Reads predicate fun back => known (front ++ back)
  | .compare left op right, outer, front, houter, h
  | .compareDates left op right timeless, outer, front, houter, h => by
    intro path hpath
    obtain ⟨segments, hsegments, hknown⟩ := h _ (List.mem_map_of_mem hpath)
    obtain ⟨back, hback, rfl⟩ := Schema.exists_segments_of_joinPath houter hsegments
    exact ⟨back, hback, hknown⟩
  | .contains path text, outer, front, houter, h => by
    obtain ⟨segments, hsegments, hknown⟩ := h _ (List.mem_singleton_self _)
    obtain ⟨back, hback, rfl⟩ := Schema.exists_segments_of_joinPath houter hsegments
    exact ⟨back, hback, hknown⟩
  | .shape .., _, _, _, _ | .isOf .., _, _, _, _ | .const _, _, _, _, _ => trivial
  | .group connective members, _, _, houter, h => allRead_of_pathsOfMembers members houter h
  | .quantified path quantifier body, outer, front, houter, h => by
    obtain ⟨segments, hsegments, hknown⟩ := h _ List.mem_cons_self
    obtain ⟨back, hback, rfl⟩ := Schema.exists_segments_of_joinPath houter hsegments
    have hbody := reads_of_pathsBelow body (houter.joinPath hback) fun inner hinner =>
      h inner (List.mem_cons_of_mem _ hinner)
    refine ⟨back, hback, hknown, hbody.imp body fun rest hrest => ?_⟩
    simpa only [List.append_assoc] using hrest
  | .not body, _, _, houter, h => reads_of_pathsBelow body houter h

/-- The same for the members of a group. -/
theorem allRead_of_pathsOfMembers {known : List String → Prop} :
    ∀ (members : List Predicate) {outer : String} {front : List String},
      Schema.OuterSegments outer front →
        (∀ path ∈ pathsOfMembers outer members,
          ∃ segments, Schema.pathSegments path = .ok segments ∧ known segments) →
        AllRead members fun back => known (front ++ back)
  | [], _, _, _, _ => trivial
  | member :: members, _, _, houter, h =>
    ⟨reads_of_pathsBelow member houter fun path hpath => h path (List.mem_append_left _ hpath),
      allRead_of_pathsOfMembers members houter fun path hpath =>
        h path (List.mem_append_right _ hpath)⟩

end

end Predicate

namespace Rows

variable {schema : Schema} {type : String}

/-- An operand with a known path has a source if the path can be read, and stops otherwise. -/
theorem Source.runsIf_ofOperand {operand : Operand}
    (h : ∀ path ∈ operand.path?.toList,
      ∃ segments, Schema.pathSegments path = .ok segments ∧ schema.Knows type segments) :
    RunsIf (operand.RunsOn schema type) (Source.ofOperand schema type operand) := by
  cases operand with
  | literal value => exact .result _ trivial
  | field path =>
    obtain ⟨segments, hsegments, hknows⟩ := h path (List.mem_singleton_self path)
    exact (Schema.runsIf_checkedPath hsegments hknows).map _

/-- A comparison of operands with known paths has a test if the paths can be read. -/
theorem Test.runsIf_ofComparison {left right : Operand} {op : Comparison} {reading : Reading}
    (h : ∀ path ∈ left.path?.toList ++ right.path?.toList,
      ∃ segments, Schema.pathSegments path = .ok segments ∧ schema.Knows type segments) :
    RunsIf (left.RunsOn schema type ∧ right.RunsOn schema type)
      (Test.ofComparison schema type left op right reading) := by
  have hleft := Source.runsIf_ofOperand fun path hpath => h path (List.mem_append_left _ hpath)
  have hright := Source.runsIf_ofOperand fun path hpath => h path (List.mem_append_right _ hpath)
  exact hleft.bind fun first _ => hright.map fun second => Test.compare first op second reading

namespace Test

mutual

/-- A predicate without type assertions whose paths are known has a test if what it reads can
be read, and stops otherwise. -/
theorem runsIf_ofPredicate :
    ∀ (predicate : Predicate) {type : String},
      predicate.EveryLeaf (fun leaf => leaf.assertsType = false) →
        predicate.Reads (schema.Knows type) →
          RunsIf (predicate.RunsOn schema type) (ofPredicate schema predicate type)
  | .compare left op right, _, _, h => runsIf_ofComparison h
  | .compareDates left op right timeless, _, _, h => runsIf_ofComparison h
  | .contains path text, _, _, ⟨segments, hsegments, hknows⟩ =>
    (Schema.runsIf_checkedPath hsegments hknows).map fun found =>
      Test.contains found (Text.lowercase text)
  | .shape .., _, _, _ | .const _, _, _, _ => .result _ trivial
  | .isOf asserted typeName, _, hleaves, _ => by cases hleaves
  | .group connective members, _, hleaves, h =>
    (runsIf_ofMembers members hleaves h).map (Test.group connective)
  | .not body, _, hleaves, h => (runsIf_ofPredicate body hleaves h).map Test.not
  | .quantified path quantifier body, type, hleaves, ⟨segments, hsegments, hknows, hbody⟩ => by
    have hfromCollection : ∀ collection, schema.resolveCollection type path = .ok collection →
        RunsIf (∀ field, schema.FieldAt type segments field ∧ field.kind = .hasMany →
            body.RunsOn schema field.target)
          (do
            let found ← checkedPath schema type path
            return Test.quantified found quantifier
              (← ofPredicate schema body collection.target)) := by
      intro collection hcollection
      obtain ⟨hfield, hkind⟩ := Schema.fieldAt_of_resolveCollection hsegments hcollection
      have hreads : body.Reads (schema.Knows collection.target) := hbody.imp body fun back =>
        hfield.knows (Schema.isRelationship_of_kind (by rw [hkind]; decide))
      have hinner := runsIf_ofPredicate body hleaves hreads
      have hpath : schema.HasFieldAt type path := ⟨segments, collection, hsegments, hfield⟩
      have hboth := (Schema.runsIf_checkedPath hsegments hknows).bind fun found _ =>
        hinner.map (Test.quantified found quantifier)
      refine hboth.congr ⟨?_, ?_⟩
      · rintro ⟨_, hruns⟩ field ⟨hother, _⟩
        exact hfield.unique hother ▸ hruns
      · intro hruns
        exact ⟨hpath, hruns collection ⟨hfield, hkind⟩⟩
    refine ((Schema.runsIf_resolveCollection hsegments hknows).bind hfromCollection).congr ⟨?_, ?_⟩
    · rintro ⟨⟨field, hfield⟩, hruns⟩
      exact ⟨segments, field, hsegments, hfield, hruns field hfield⟩
    · rintro ⟨other, field, hother, hfield, hruns⟩
      obtain rfl := Except.ok.inj (hsegments.symm.trans hother)
      refine ⟨⟨field, hfield⟩, fun found hfound => ?_⟩
      exact hfield.1.unique hfound.1 ▸ hruns

/-- The same for the members of a group. -/
theorem runsIf_ofMembers :
    ∀ (members : List Predicate) {type : String},
      Predicate.EveryLeafOf (fun leaf => leaf.assertsType = false) members →
        Predicate.AllRead members (schema.Knows type) →
          RunsIf (Predicate.AllRunOn schema members type) (ofMembers schema members type)
  | [], _, _, _ => .result [] trivial
  | member :: members, _, hleaves, h =>
    (runsIf_ofPredicate member hleaves.1 h.1).bind fun first _ =>
      (runsIf_ofMembers members hleaves.2 h.2).map (first :: ·)

end

end Test

/-- A clause with known paths has an order if its paths can be read, and stops otherwise. -/
theorem Order.runsIf_ofClause {clause : OrderClause}
    (h : ∀ key ∈ clause.keys,
      ∃ segments, Schema.pathSegments key.path = .ok segments ∧ schema.Knows type segments) :
    RunsIf (∀ key ∈ clause.keys, schema.HasFieldAt type key.path)
      (Order.ofClause schema type clause) := by
  have hkeys : ∀ key ∈ clause.keys,
      RunsIf (schema.HasFieldAt type key.path) (Order.keyOf schema type key) := by
    intro key hkey
    obtain ⟨segments, hsegments, hknows⟩ := h key hkey
    exact (Schema.runsIf_checkedPath hsegments hknows).map fun found =>
      (⟨found, key.isDescending⟩ : Key)
  exact (RunsIf.mapM hkeys).map Order.mk

end Rows

namespace Query

variable {schema : Schema} {draft : Draft} {settings : BuildSettings} {query : Query}

/-- The queried type of a built query has an identity. -/
theorem exists_identity (h : draft.build schema settings = .ok query) :
    ∃ field, schema.resolve query.entityType identityField = .ok field := by
  obtain ⟨_, _, _, trace⟩ := Draft.exists_trace_of_build h
  obtain ⟨key, hkey, _⟩ := bind_eq_ok_iff.mp trace.named
  exact ⟨key, (if_pos rfl).trans hkey⟩

/-- The paths that the filter of a built query reads, the wanted identity included, are known. -/
theorem reads_effectivePredicate (h : draft.build schema settings = .ok query)
    (halike : query.selectMode = .all → schema.RedeclaresAlike) {predicate : Predicate}
    (hpredicate : query.effectivePredicate = some predicate) :
    predicate.Reads (schema.Knows query.entityType) := by
  obtain ⟨_, _, hsame, _⟩ := Draft.options_of_build h
  refine (forall_effectivePredicate_iff (P := fun predicate =>
    predicate.Reads (schema.Knows query.entityType)) Predicate.reads_group_iff).mpr ⟨?_, ?_⟩
      predicate hpredicate
  · intro filter hfilter
    refine Predicate.reads_of_pathsBelow filter Schema.outerSegments_empty fun path hpath => ?_
    refine Draft.knows_of_build h halike path (List.mem_append_left _ ?_)
    rw [← hsame, hfilter]
    exact hpath
  · intro filter hfilter
    obtain ⟨value, _, rfl⟩ := Option.map_eq_some_iff.mp hfilter
    obtain ⟨field, hfield⟩ := exists_identity h
    intro path hpath
    obtain rfl := List.mem_singleton.mp hpath
    exact ⟨[identityField], Rows.pathSegments_identityField, field, hfield, fun _ => trivial⟩

/-- The filter together with the wanted identity can be read if the filter can be. -/
theorem runsOn_effectivePredicate_iff (h : draft.build schema settings = .ok query) :
    (∀ predicate, query.effectivePredicate = some predicate →
        predicate.RunsOn schema query.entityType) ↔
      ∀ predicate, query.predicate = some predicate →
        predicate.RunsOn schema query.entityType := by
  rw [forall_effectivePredicate_iff Predicate.runsOn_group_iff]
  refine and_iff_left ?_
  intro filter hfilter
  obtain ⟨value, _, rfl⟩ := Option.map_eq_some_iff.mp hfilter
  obtain ⟨field, hfield⟩ := exists_identity h
  exact ⟨⟨_, field, Rows.pathSegments_identityField, .last hfield⟩, trivial⟩

/-- The comparison with the wanted identity asserts no type. -/
theorem everyLeaf_effectivePredicate
    (h : ∀ predicate, query.predicate = some predicate →
      predicate.EveryLeaf fun leaf => leaf.assertsType = false) {predicate : Predicate}
    (hpredicate : query.effectivePredicate = some predicate) :
    predicate.EveryLeaf fun leaf => leaf.assertsType = false := by
  refine (forall_effectivePredicate_iff Predicate.everyLeaf_group_iff).mpr ⟨h, ?_⟩ predicate
    hpredicate
  intro filter hfilter
  obtain ⟨value, _, rfl⟩ := Option.map_eq_some_iff.mp hfilter
  rfl

end Query

namespace Rows.Pipeline

variable {schema : Schema} {draft : Draft} {settings : BuildSettings} {query : Query}

/-- A built query without type assertions has a pipeline if its filter and its order can be
read, and stops at a relationship otherwise. -/
theorem runsIf_ofQuery (h : draft.build schema settings = .ok query)
    (hasserts : ∀ predicate, query.predicate = some predicate →
      predicate.EveryLeaf fun leaf => leaf.assertsType = false)
    (halike : query.selectMode = .all → schema.RedeclaresAlike) (dates : DateStyle) :
    RunsIf
      ((∀ predicate, query.effectivePredicate = some predicate →
          predicate.RunsOn schema query.entityType) ∧
        ∀ clause, query.order = some clause →
          ∀ key ∈ clause.keys, schema.HasFieldAt query.entityType key.path)
      (ofQuery schema dates query) := by
  rw [ofQuery]
  have htest : RunsIf
      (∀ predicate, query.effectivePredicate = some predicate →
        predicate.RunsOn schema query.entityType)
      (Test.ofPredicate? schema query.entityType query.effectivePredicate) := by
    cases hpredicate : query.effectivePredicate with
    | none => exact .result none (by simp)
    | some predicate =>
      have hrun := Test.runsIf_ofPredicate predicate
        (Query.everyLeaf_effectivePredicate hasserts hpredicate)
        (Query.reads_effectivePredicate h halike hpredicate)
      exact (hrun.map some).congr (by simp)
  have horder : RunsIf
      (∀ clause, query.order = some clause →
        ∀ key ∈ clause.keys, schema.HasFieldAt query.entityType key.path)
      (Order.ofClause? schema query.entityType query.order) := by
    obtain ⟨_, _, _, hsame, _⟩ := Draft.options_of_build h
    cases hclause : query.order with
    | none => exact .result _ (by simp)
    | some clause =>
      have hkeys : ∀ key ∈ clause.keys, ∃ segments,
          Schema.pathSegments key.path = .ok segments ∧
            schema.Knows query.entityType segments := by
        intro key hkey
        refine Draft.knows_of_build h halike key.path (List.mem_append_right _ ?_)
        rw [← hsame, hclause]
        exact List.mem_map_of_mem hkey
      have hrun : RunsIf (∀ key ∈ clause.keys, schema.HasFieldAt query.entityType key.path)
          (Order.ofClause schema query.entityType clause) := Order.runsIf_ofClause hkeys
      exact hrun.congr (by simp)
  refine htest.bind fun test _ => ?_
  exact horder.map fun order => ({
    dates, test, order, skip := query.skip, top := query.top, tree := query.outputTree } : Pipeline)

/-- A built query without type assertions runs on records exactly if its filter and its order
go on after relationships to one record only and quantify over collections. Otherwise it stops
at a relationship where a path does not do so; no other fault is left for running it. In the
mode of everything within reach a name that is declared again must lead to the same records. -/
theorem built_query_runs_iff (h : draft.build schema settings = .ok query)
    (hasserts : ∀ predicate, query.predicate = some predicate →
      predicate.EveryLeaf fun leaf => leaf.assertsType = false)
    (halike : query.selectMode = .all → schema.RedeclaresAlike) (dates : DateStyle) :
    ((∃ pipeline, ofQuery schema dates query = .ok pipeline) ↔
        (∀ predicate, query.predicate = some predicate →
            predicate.RunsOn schema query.entityType) ∧
          ∀ clause, query.order = some clause →
            ∀ key ∈ clause.keys, schema.HasFieldAt query.entityType key.path) ∧
      ∀ fault, ofQuery schema dates query = .error fault →
        ∃ owner name, fault = .notRelationship owner name := by
  have hruns := runsIf_ofQuery h hasserts halike dates
  refine ⟨?_, fun fault => hruns.eq_notRelationship⟩
  rw [hruns.exists_ok_iff, Query.runsOn_effectivePredicate_iff h]

/-- The filter for a text in the name of the manager and an order above a price. -/
def staffFilter : Predicate :=
  .group .and [.contains "manager.name" "va",
    .quantified "orders" .any (.simple "price" .gt (.int 5))]

/-- A query for the employees that pass this filter, those with the oldest managers first. -/
def staffDraft : Draft where
  entityType := some "employee"
  predicate := some staffFilter
  order := some ⟨[⟨"manager.age", some .descending⟩]⟩

theorem built_query_runs_staff :
    Sample.schema.RedeclaresAlike ∧
      ∃ query, staffDraft.build Sample.schema = .ok query ∧ query.selectMode = .all ∧
        query.predicate = some staffFilter ∧
        (∃ pipeline, ofQuery Sample.schema .standard query = .ok pipeline) := by
  have halike : Sample.schema.RedeclaresAlike := by decide +kernel
  obtain ⟨query, hbuild⟩ : ∃ query, staffDraft.build Sample.schema = .ok query :=
    exists_eq_ok_of_isOk (by decide +kernel)
  obtain ⟨htype, _, hpredicate, hclause, hmode⟩ := Draft.options_of_build hbuild
  have hemployee : query.entityType = "employee" := (Option.some.inj htype).symm
  have hbehindManager {name : String} {field : Field}
      (hfield : Sample.schema.resolve "employee" name = .ok field) :
      Sample.schema.FieldAt "employee" ["manager", name] field := by
    have hfirst : Sample.schema.resolve "employee" "manager" =
        .ok (.related "employee"
          { name := "manager", kind := .belongsTo, target := "employee" }) := by decide +kernel
    exact .next hfirst rfl (.last hfield)
  have hname : Sample.schema.HasFieldAt "employee" "manager.name" :=
    ⟨["manager", "name"], .scalar "employee" ⟨"name", .string, none⟩, by decide +kernel,
      hbehindManager (by decide +kernel)⟩
  have hage : Sample.schema.HasFieldAt "employee" "manager.age" :=
    ⟨["manager", "age"], .scalar "employee" ⟨"age", .number, none⟩, by decide +kernel,
      hbehindManager (by decide +kernel)⟩
  have horders : Sample.schema.FieldAt "employee" ["orders"]
      (.related "employee" { name := "orders", kind := .hasMany, target := "order" }) :=
    .last (by decide +kernel)
  have hprice : Sample.schema.HasFieldAt "order" "price" :=
    ⟨["price"], .scalar "order" ⟨"price", .number, none⟩, by decide +kernel,
      .last (by decide +kernel)⟩
  have hreads : staffFilter.RunsOn Sample.schema query.entityType := by
    rw [hemployee]
    exact ⟨hname, ⟨["orders"], _, by decide +kernel, ⟨horders, rfl⟩, hprice, trivial⟩, trivial⟩
  have horder : ∀ clause, query.order = some clause →
      ∀ key ∈ clause.keys, Sample.schema.HasFieldAt query.entityType key.path := by
    intro clause hsome key hkey
    obtain rfl := Option.some.inj (hclause.symm.trans hsome)
    obtain rfl := List.mem_singleton.mp hkey
    exact hemployee ▸ hage
  refine ⟨halike, query, hbuild, hmode, hpredicate, ?_⟩
  refine (built_query_runs_iff hbuild ?_ (fun _ => halike) .standard).1.mpr ⟨?_, horder⟩
  · intro predicate hsome
    obtain rfl := Option.some.inj (hpredicate.symm.trans hsome)
    exact ⟨rfl, rfl, trivial⟩
  · intro predicate hsome
    obtain rfl := Option.some.inj (hpredicate.symm.trans hsome)
    exact hreads

/-- A filter along the path of a collection is fetched but not tested: the query is built, and
looking up the path stops at the collection. -/
theorem orders_price_not_run :
    Sample.schema.Closed ∧ (∀ entry ∈ Sample.schema.models, entry.2.parent = none) ∧
      ∃ query, (Draft.ofSteps [.ofType "employee",
          .filter (.simple "orders.price" .geq (.int 5))]).build Sample.schema = .ok query ∧
        (∀ predicate, query.predicate = some predicate →
          predicate.EveryLeaf fun leaf => leaf.assertsType = false) ∧
        ofQuery Sample.schema .standard query =
          .error (.notRelationship "employee" "orders") := by
  refine ⟨⟨by decide +kernel, by decide +kernel⟩, by decide +kernel, ?_⟩
  obtain ⟨query, hbuild⟩ : ∃ query, (Draft.ofSteps [.ofType "employee",
      .filter (.simple "orders.price" .geq (.int 5))]).build Sample.schema = .ok query :=
    exists_eq_ok_of_isOk (by decide +kernel)
  obtain ⟨htype, hidentity, hpredicate, _⟩ := Draft.options_of_build hbuild
  have hemployee : query.entityType = "employee" := (Option.some.inj htype).symm
  refine ⟨query, hbuild, ?_, ?_⟩
  · intro predicate hsome
    obtain rfl := Option.some.inj (hpredicate.symm.trans hsome)
    rfl
  · have hfilter : query.effectivePredicate =
        some (.simple "orders.price" .geq (.int 5)) := by
      rw [Query.effectivePredicate, Query.identityPredicate, hidentity, hpredicate]
      rfl
    have hpath : checkedPath Sample.schema "employee" "orders.price" =
        .error (.notRelationship "employee" "orders") := by decide +kernel
    rw [ofQuery, hemployee, hfilter]
    simp [Test.ofPredicate?, Predicate.simple, Test.ofPredicate, Test.ofComparison,
      Source.ofOperand, hpath, Except.map, bind, Except.bind]

end Rows.Pipeline

end EntityQuery
