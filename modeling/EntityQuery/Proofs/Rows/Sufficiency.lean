import EntityQuery.Proofs.Query.Trees
import EntityQuery.Proofs.Rows.Shaping
import EntityQuery.Proofs.Rows.Stages
import EntityQuery.Proofs.StableSort
import EntityQuery.Proofs.Value.Order

/-!
# What is fetched suffices

A test only looks at the values along its paths, and below a quantifier at the values
along the paths of its items. When a tree covers these paths at every place where they
are read, the test has the same verdict on a record and on what the tree keeps of it; the
same goes for an order. The tree of everything that must be fetched for a query is such a
tree, so the engine need not see more than what was fetched.

Searching a text in a list is the exception: the text of a list shows all of its items.
-/

namespace EntityQuery

open SelectTree

/-- A choice of dates that reads no list as an instant. -/
def DateStyle.ReadsNoList (dates : DateStyle) : Prop :=
  ∀ items, dates.read? (.list items) = none

/-- The standard choice reads no list. -/
theorem DateStyle.readsNoList_standard : DateStyle.standard.ReadsNoList := fun _ => rfl

namespace Rows

/-- What is alike is equal, or both are lists. -/
theorem Alike.equalOrLists {node? : Option SelectTree} {before after : Value}
    (h : Alike node? before after) : Value.EqualOrLists before after := by
  rcases h with heq | ⟨node, items, _, rfl, rfl⟩
  · exact .inl heq
  · exact .inr ⟨rfl, rfl⟩

/-- A comparison does not tell lists apart. -/
theorem Reading.holds_of_equalOrLists {dates : DateStyle} (hdates : dates.ReadsNoList)
    (reading : Reading) (op : Comparison) {left left' right right' : Value}
    (hleft : Value.EqualOrLists left left') (hright : Value.EqualOrLists right right') :
    reading.holds dates left' op right' = reading.holds dates left op right := by
  have hread : ∀ {before after : Value}, Value.EqualOrLists before after →
      dates.read? after = dates.read? before := by
    intro before after h
    rcases h with rfl | ⟨hbefore, hafter⟩
    · rfl
    · obtain ⟨_, rfl⟩ := Value.exists_list_of_isList hbefore
      obtain ⟨_, rfl⟩ := Value.exists_list_of_isList hafter
      rw [hdates, hdates]
  have hinstants : reading.instants? dates left' right' = reading.instants? dates left right := by
    rw [instants?, instants?, takesInstants, takesInstants, hleft.asInstant?_eq,
      hright.asInstant?_eq, hleft.isNull_eq, hright.isNull_eq, hread hleft, hread hright]
  have hcompare : reading.compare? dates left' right' = reading.compare? dates left right := by
    rw [compare?, compare?, hinstants, hleft.compare?_left, hright.compare?_right]
  rw [holds, holds, hcompare]

/-- A source reads nothing that a tree does not reach. -/
def Source.CoveredBy (source : Source) (tree : SelectTree) : Prop :=
  match source with
  | path segments => segments ≠ [] ∧ tree.covers segments = true
  | fixed _ => True

/-- A covered source reads the same in a record and in what the tree keeps of it, or a
list in both. -/
theorem Source.equalOrLists_read_shape {source : Source} {tree : SelectTree}
    (htidy : Everywhere Tidy tree) (hkeeps : Everywhere KeepsIdentity tree)
    (hcovered : source.CoveredBy tree) (record : Record) :
    Value.EqualOrLists (source.read record) (source.read (shape tree record)) := by
  cases source with
  | fixed value => exact .refl value
  | path segments =>
    exact (alike_read_shape htidy hkeeps hcovered.1 hcovered.2 record).equalOrLists

namespace Test

mutual

/-- A test reads nothing that a tree does not reach, a quantified one nothing in the items
that the tree of the items does not reach. -/
def CoveredBy : Test → SelectTree → Prop
  | compare left _ right _, tree => left.CoveredBy tree ∧ right.CoveredBy tree
  | contains path _, tree => path ≠ [] ∧ tree.covers path = true
  | group _ members, tree => AllCoveredBy members tree
  | not body, tree => CoveredBy body tree
  | quantified path _ body, tree =>
    path ≠ [] ∧ tree.covers path = true ∧
      ∀ node, tree.below? path = some node → CoveredBy body node
  | const _, _ => True
termination_by structural test => test

/-- Tests that read nothing that a tree does not reach. -/
def AllCoveredBy : List Test → SelectTree → Prop
  | [], _ => True
  | test :: tests, tree => CoveredBy test tree ∧ AllCoveredBy tests tree
termination_by structural tests => tests

end

mutual

/-- A test searches no text in a list, neither in a record nor in the items of a list of
records that it quantifies over. -/
def SearchesNoList : Test → Record → Prop
  | contains path _, record => (record.read path).isList = false
  | group _ members, record => AllSearchNoList members record
  | not body, record => SearchesNoList body record
  | quantified path _ body, record =>
    ∀ fields, .record fields ∈ (record.read path).asList?.getD [] → SearchesNoList body fields
  | compare .., _ | const _, _ => True
termination_by structural test => test

/-- Tests that search no text in a list. -/
def AllSearchNoList : List Test → Record → Prop
  | [], _ => True
  | test :: tests, record => SearchesNoList test record ∧ AllSearchNoList tests record
termination_by structural tests => tests

end

/-- A quantifier gives the same verdict on the items of a list and on the shaped items, when
the test of the items does. -/
theorem quantify_mapRecords {quantifier : Quantifier} {passes : Record → Bool}
    {change : Record → Record} {items : List Value}
    (h : ∀ fields, .record fields ∈ items → passes (change fields) = passes fields) :
    quantify quantifier passes (((mapRecords change (.list items)).asList?).getD []) =
      quantify quantifier passes items := by
  induction items with
  | nil => rfl
  | cons item rest ih =>
    have hrest := ih fun fields hfields => h fields (List.mem_cons_of_mem item hfields)
    cases quantifier with
    | all =>
      simp only [quantify, mapRecords, Value.asList?, Option.getD_some, List.map_cons,
        List.all_cons] at hrest ⊢
      rw [hrest]
      cases item with
      | record fields => simp only [h fields List.mem_cons_self]
      | _ => rfl
    | any =>
      simp only [quantify, mapRecords, Value.asList?, Option.getD_some, List.map_cons,
        List.any_cons] at hrest ⊢
      rw [hrest]
      cases item with
      | record fields => simp only [h fields List.mem_cons_self]
      | _ => rfl

mutual

/-- A covered test has the same verdict on a record and on what the tree keeps of it. -/
theorem passes_shape {dates : DateStyle} (hdates : dates.ReadsNoList) :
    ∀ (test : Test) {tree : SelectTree}, Everywhere Tidy tree → Everywhere KeepsIdentity tree →
      test.CoveredBy tree → ∀ record, test.SearchesNoList record →
        test.passes dates (shape tree record) = test.passes dates record
  | compare left op right reading, tree, htidy, hkeeps, hcovered, record, _ =>
    Reading.holds_of_equalOrLists hdates reading op
      (Source.equalOrLists_read_shape htidy hkeeps hcovered.1 record)
      (Source.equalOrLists_read_shape htidy hkeeps hcovered.2 record)
  | contains path needle, tree, htidy, hkeeps, hcovered, record, hsearch => by
    have halike := alike_read_shape htidy hkeeps hcovered.1 hcovered.2 record
    rcases halike with heq | ⟨node, items, _, hlist, _⟩
    · rw [passes, passes, heq]
    · rw [SearchesNoList, hlist] at hsearch
      cases hsearch
  | group connective members, tree, htidy, hkeeps, hcovered, record, hsearch => by
    obtain ⟨hall, hany⟩ := passesMembers_shape hdates members htidy hkeeps hcovered record hsearch
    cases connective with
    | and => exact hall
    | or => exact hany
  | not body, tree, htidy, hkeeps, hcovered, record, hsearch =>
    congrArg Bool.not (passes_shape hdates body htidy hkeeps hcovered record hsearch)
  | quantified path quantifier body, tree, htidy, hkeeps, hcovered, record, hsearch => by
    obtain ⟨hpath, hcovers, hbody⟩ := hcovered
    rw [passes, passes]
    rcases alike_read_shape htidy hkeeps hpath hcovers record with heq | ⟨node, items, hnode,
      hlist, hshaped⟩
    · rw [heq]
    · rw [SearchesNoList, hlist] at hsearch
      rw [hshaped, hlist]
      refine quantify_mapRecords fun fields hfields => ?_
      exact passes_shape hdates body (htidy.below? hnode) (hkeeps.below? hnode)
        (hbody node hnode) fields (hsearch fields hfields)
  | const verdict, tree, _, _, _, record, _ => rfl

/-- Covered tests have the same verdicts on a record and on what the tree keeps of it. -/
theorem passesMembers_shape {dates : DateStyle} (hdates : dates.ReadsNoList) :
    ∀ (tests : List Test) {tree : SelectTree}, Everywhere Tidy tree →
      Everywhere KeepsIdentity tree → AllCoveredBy tests tree → ∀ record,
        AllSearchNoList tests record →
        passesAll dates tests (shape tree record) = passesAll dates tests record ∧
          passesAny dates tests (shape tree record) = passesAny dates tests record
  | [], tree, _, _, _, record, _ => ⟨rfl, rfl⟩
  | test :: tests, tree, htidy, hkeeps, hcovered, record, hsearch => by
    have hfirst := passes_shape hdates test htidy hkeeps hcovered.1 record hsearch.1
    obtain ⟨hall, hany⟩ := passesMembers_shape hdates tests htidy hkeeps hcovered.2 record hsearch.2
    rw [passesAll, passesAll, passesAny, passesAny, hfirst, hall, hany]
    exact ⟨rfl, rfl⟩

end

end Test

/-- A tree reaches all of some paths. -/
def Reaches (tree : SelectTree) (paths : List String) : Prop :=
  ∀ path ∈ paths, ∀ segments, Schema.pathSegments path = .ok segments →
    tree.covers segments = true

/-- A tree that reaches a list of paths reaches any part of it. -/
theorem Reaches.subset {tree : SelectTree} {paths others : List String}
    (h : Reaches tree paths) (hothers : others ⊆ paths) : Reaches tree others :=
  fun path hpath => h path (hothers hpath)

/-- A path that is reached below another one is reached from where that one leads. -/
theorem Reaches.covers {tree node : SelectTree} {paths : List String} (h : Reaches tree paths)
    {outer path : String} {front back : List String} (houter : Schema.OuterSegments outer front)
    (hnode : tree.below? front = some node) (hpath : Predicate.joinPath outer path ∈ paths)
    (hsegments : Schema.pathSegments path = .ok back) :
    back ≠ [] ∧ node.covers back = true := by
  have hback := Schema.pathSegments_ne_nil hsegments
  have hcovers := h _ hpath _ (Schema.pathSegments_joinPath houter hsegments)
  obtain ⟨other, hother, hreached⟩ := (covers_append hback).mp hcovers
  obtain rfl := Option.some.inj (hnode.symm.trans hother)
  exact ⟨hback, hreached⟩

/-- The source of an operand is covered where the path of the operand is reached. -/
theorem Source.coveredBy_ofOperand {schema : Schema} {type : String} {operand : Operand}
    {source : Source} (h : Source.ofOperand schema type operand = .ok source)
    {tree node : SelectTree} {outer : String} {front : List String}
    (houter : Schema.OuterSegments outer front) (hnode : tree.below? front = some node)
    (hreaches : Reaches tree (operand.path?.toList.map (Predicate.joinPath outer))) :
    source.CoveredBy node := by
  cases operand with
  | literal value =>
    obtain rfl := Except.ok.inj h
    exact trivial
  | field path =>
    obtain ⟨segments, hsegments, rfl⟩ := map_eq_ok_iff.mp h
    exact hreaches.covers houter hnode (List.mem_singleton_self _) (checkedPath_eq_ok hsegments)

namespace Test

/-- A comparison is covered where the paths of its operands are reached. -/
theorem coveredBy_ofComparison {schema : Schema} {type : String} {left right : Operand}
    {op : Comparison} {reading : Reading} {test : Test}
    (h : ofComparison schema type left op right reading = .ok test)
    {tree node : SelectTree} {outer : String} {front : List String}
    (houter : Schema.OuterSegments outer front) (hnode : tree.below? front = some node)
    (hreaches : Reaches tree
      ((left.path?.toList ++ right.path?.toList).map (Predicate.joinPath outer))) :
    test.CoveredBy node := by
  obtain ⟨leftSource, hleft, h⟩ := bind_eq_ok_iff.mp h
  obtain ⟨rightSource, hright, h⟩ := bind_eq_ok_iff.mp h
  obtain rfl := pure_eq_ok_iff.mp h
  rw [List.map_append] at hreaches
  exact ⟨Source.coveredBy_ofOperand hleft houter hnode
      (hreaches.subset (List.subset_append_left _ _)),
    Source.coveredBy_ofOperand hright houter hnode
      (hreaches.subset (List.subset_append_right _ _))⟩

mutual

/-- The test of a predicate is covered where all the paths are reached that the predicate
reads below the path that leads there. -/
theorem coveredBy_ofPredicate {schema : Schema} {tree : SelectTree} :
    ∀ (predicate : Predicate) {type : String} {test : Test},
      ofPredicate schema predicate type = .ok test → ∀ {outer : String} {front : List String}
        {node : SelectTree}, Schema.OuterSegments outer front → tree.below? front = some node →
          Reaches tree (predicate.pathsBelow outer) → test.CoveredBy node
  | .compare left op right, type, test, h, outer, front, node, houter, hnode, hreaches => by
    rw [ofPredicate] at h
    exact coveredBy_ofComparison h houter hnode hreaches
  | .compareDates left op right timeless, type, test, h, outer, front, node, houter, hnode,
      hreaches => by
    rw [ofPredicate] at h
    exact coveredBy_ofComparison h houter hnode hreaches
  | .contains path text, type, test, h, outer, front, node, houter, hnode, hreaches => by
    rw [ofPredicate] at h
    obtain ⟨segments, hsegments, h⟩ := bind_eq_ok_iff.mp h
    obtain rfl := pure_eq_ok_iff.mp h
    exact hreaches.covers houter hnode (List.mem_singleton_self _) (checkedPath_eq_ok hsegments)
  | .shape .., type, test, h, outer, front, node, _, _, _ => by
    rw [ofPredicate] at h
    obtain rfl := Except.ok.inj h
    exact trivial
  | .group connective members, type, test, h, outer, front, node, houter, hnode, hreaches => by
    obtain ⟨tests, htests, rfl⟩ := ofPredicate_group_eq_ok_iff.mp h
    exact coveredBy_ofMembers members htests houter hnode hreaches
  | .quantified path quantifier body, type, test, h, outer, front, node, houter, hnode,
      hreaches => by
    rw [ofPredicate] at h
    obtain ⟨collection, _, h⟩ := bind_eq_ok_iff.mp h
    obtain ⟨segments, hchecked, h⟩ := bind_eq_ok_iff.mp h
    obtain ⟨bodyTest, hbodyTest, h⟩ := bind_eq_ok_iff.mp h
    obtain rfl := pure_eq_ok_iff.mp h
    have hsegments := checkedPath_eq_ok hchecked
    obtain ⟨hnil, hcovers⟩ := hreaches.covers houter hnode List.mem_cons_self hsegments
    refine ⟨hnil, hcovers, fun inner hinner => ?_⟩
    refine coveredBy_ofPredicate body hbodyTest (houter.joinPath hsegments) ?_
      (hreaches.subset (List.subset_cons_self _ _))
    exact below?_append hnode hinner
  | .not body, type, test, h, outer, front, node, houter, hnode, hreaches => by
    rw [ofPredicate] at h
    obtain ⟨bodyTest, hbodyTest, h⟩ := bind_eq_ok_iff.mp h
    obtain rfl := pure_eq_ok_iff.mp h
    exact coveredBy_ofPredicate body hbodyTest houter hnode hreaches
  | .isOf expression typeName, type, test, h, outer, front, node, _, _, _ => by
    rw [ofPredicate] at h
    cases h
  | .const verdict, type, test, h, outer, front, node, _, _, _ => by
    rw [ofPredicate] at h
    obtain rfl := Except.ok.inj h
    exact trivial

/-- The tests of the members of a group are covered where all their paths are reached. -/
theorem coveredBy_ofMembers {schema : Schema} {tree : SelectTree} :
    ∀ (members : List Predicate) {type : String} {tests : List Test},
      ofMembers schema members type = .ok tests → ∀ {outer : String} {front : List String}
        {node : SelectTree}, Schema.OuterSegments outer front → tree.below? front = some node →
          Reaches tree (Predicate.pathsOfMembers outer members) → AllCoveredBy tests node
  | [], type, tests, h, outer, front, node, _, _, _ => by
    rw [ofMembers] at h
    obtain rfl := Except.ok.inj h
    exact trivial
  | member :: members, type, tests, h, outer, front, node, houter, hnode, hreaches => by
    obtain ⟨first, hfirst, rest, hrest, rfl⟩ := ofMembers_cons_eq_ok_iff.mp h
    exact ⟨coveredBy_ofPredicate member hfirst houter hnode
        (hreaches.subset (List.subset_append_left _ _)),
      coveredBy_ofMembers members hrest houter hnode
        (hreaches.subset (List.subset_append_right _ _))⟩

end

end Test

namespace Order

/-- An order reads nothing that a tree does not reach. -/
def CoveredBy (order : Order) (tree : SelectTree) : Prop :=
  ∀ key ∈ order.keys, key.path ≠ [] ∧ tree.covers key.path = true

/-- The order of a clause is covered where the paths of the clause are reached. -/
theorem coveredBy_ofClause {schema : Schema} {type : String} {clause : OrderClause}
    {order : Order} (h : ofClause schema type clause = .ok order) {tree : SelectTree}
    (hreaches : Reaches tree (clause.keys.map SortKey.path)) : order.CoveredBy tree := by
  obtain ⟨keys, hkeys, h⟩ := bind_eq_ok_iff.mp h
  obtain rfl := pure_eq_ok_iff.mp h
  intro key hkey
  obtain ⟨sortKey, hmem, hkeyOf⟩ := exists_of_mem_mapM hkeys hkey
  obtain ⟨segments, hchecked, hkeyOf⟩ := bind_eq_ok_iff.mp hkeyOf
  obtain rfl := pure_eq_ok_iff.mp hkeyOf
  have hsegments := checkedPath_eq_ok hchecked
  exact ⟨Schema.pathSegments_ne_nil hsegments,
    hreaches _ (List.mem_map_of_mem hmem) _ hsegments⟩

/-- A covered order compares what the tree keeps of two records as it compares the records. -/
theorem compare_shape {tree : SelectTree} (htidy : Everywhere Tidy tree)
    (hkeeps : Everywhere KeepsIdentity tree) {order : Order} (hcovered : order.CoveredBy tree)
    (a b : Record) : order.compare (shape tree a) (shape tree b) = order.compare a b := by
  have hkey : ∀ key ∈ order.keys, key.compare (shape tree a) (shape tree b) = key.compare a b := by
    intro key hkey
    obtain ⟨hpath, hcovers⟩ := hcovered key hkey
    rw [Key.compare, Key.compare, Value.sortCompare_of_equalOrLists
      (alike_read_shape htidy hkeeps hpath hcovers a).equalOrLists
      (alike_read_shape htidy hkeeps hpath hcovers b).equalOrLists]
  rw [compare, compare]
  generalize order.keys = keys at hkey
  induction keys with
  | nil => rfl
  | cons key keys ih =>
    rw [compareBy, compareBy, hkey key List.mem_cons_self,
      ih fun other hother => hkey other (List.mem_cons_of_mem key hother)]

end Order

namespace Pipeline

/-- The positions of the records that a pipeline admits, in the order in which it sorts
the records. -/
def ranking (pipeline : Pipeline) (records : List Record) : List Nat :=
  (stableSort (fun a b => pipeline.order.compare a.1 b.1)
    (records.zipIdx.filter fun entry => pipeline.admits entry.1)).map Prod.snd

/-- The records at the positions of a ranking are those that were admitted and sorted. -/
theorem map_getElem?_ranking (pipeline : Pipeline) (records : List Record) :
    (pipeline.ranking records).map (fun position => records[position]?) =
      (pipeline.order.sort (records.filter pipeline.admits)).map some := by
  have hrecords : (records.zipIdx.filter fun entry => pipeline.admits entry.1).map Prod.fst =
      records.filter pipeline.admits := by
    have hfilter := List.filter_map (f := Prod.fst) (p := pipeline.admits) (l := records.zipIdx)
    rw [List.zipIdx_map_fst] at hfilter
    exact hfilter.symm
  rw [Order.sort, ← hrecords, stableSort_map (fun a b => pipeline.order.compare a.1 b.1)
    (fun _ _ => rfl), ranking, List.map_map, List.map_map]
  refine List.map_congr_left fun entry hentry => ?_
  have hmem := (List.mem_filter.mp ((stableSort_perm _ _).mem_iff.mp hentry)).1
  exact List.mem_zipIdx_iff_getElem?.mp hmem

/-- Changing records in a way that neither the test nor the order notices leaves the
ranking as it is. -/
theorem ranking_map {pipeline : Pipeline} {records : List Record} {change : Record → Record}
    (hadmits : ∀ record ∈ records, pipeline.admits (change record) = pipeline.admits record)
    (hcompare : ∀ a b, pipeline.order.compare (change a) (change b) = pipeline.order.compare a b) :
    pipeline.ranking (records.map change) = pipeline.ranking records := by
  have hfilter : ((records.map change).zipIdx.filter fun entry => pipeline.admits entry.1) =
      (records.zipIdx.filter fun entry => pipeline.admits entry.1).map (Prod.map change id) := by
    rw [List.zipIdx_map, List.filter_map]
    refine congrArg _ (List.filter_congr fun entry hentry => ?_)
    exact hadmits entry.1 (List.fst_mem_of_mem_zipIdx hentry)
  rw [ranking, hfilter, stableSort_map (fun a b => pipeline.order.compare a.1 b.1)
    (fun a b => hcompare a.1 b.1), List.map_map]
  rfl

end Pipeline

/-- The paths of a group are reached if those of its members are. -/
theorem reaches_group_iff {tree : SelectTree} (connective : Connective)
    (members : List Predicate) :
    Reaches tree (Predicate.group connective members).paths ↔
      ∀ member ∈ members, Reaches tree member.paths := by
  have hpaths : (Predicate.group connective members).paths =
      members.flatMap Predicate.paths := Predicate.pathsOfMembers_eq_flatMap "" members
  rw [hpaths]
  constructor
  · intro h member hmember path hpath
    exact h path (List.mem_flatMap.mpr ⟨member, hmember, hpath⟩)
  · intro h path hpath
    obtain ⟨member, hmember, hread⟩ := List.mem_flatMap.mp hpath
    exact h member hmember path hread

/-- What must be fetched for a built query reaches every path of its filter, the wanted
identity included. -/
theorem reaches_effectivePredicate {draft : Draft} {schema : Schema} {settings : BuildSettings}
    {query : Query} (h : draft.build schema settings = .ok query) {predicate : Predicate}
    (hpredicate : query.effectivePredicate = some predicate) :
    Reaches query.fetchTree predicate.paths := by
  obtain ⟨_, _, hsame, _⟩ := Draft.options_of_build h
  refine (Query.forall_effectivePredicate_iff (P := fun predicate =>
    Reaches query.fetchTree predicate.paths) reaches_group_iff).mpr ⟨?_, ?_⟩ predicate hpredicate
  · intro filter hfilter path hpath segments hsegments
    refine Draft.covers_fetchTree h (List.mem_append_left _ ?_) hsegments
    rw [← hsame, hfilter]
    exact hpath
  · intro filter hfilter path hpath segments hsegments
    obtain ⟨value, _, rfl⟩ := Option.map_eq_some_iff.mp hfilter
    obtain rfl := List.mem_singleton.mp hpath
    obtain rfl := Except.ok.inj (pathSegments_identityField.symm.trans hsegments)
    exact (covers_singleton _ _).mpr (Draft.tidy_fetchTree h).here.identity_mem

namespace Pipeline

/-- The test and the order of a built query are covered by what must be fetched for it. -/
theorem coveredBy_fetchTree {draft : Draft} {schema : Schema} {settings : BuildSettings}
    {query : Query} (h : draft.build schema settings = .ok query) {dates : DateStyle}
    {pipeline : Pipeline} (hpipeline : ofQuery schema dates query = .ok pipeline) :
    (∀ test, pipeline.test = some test → test.CoveredBy query.fetchTree) ∧
      pipeline.order.CoveredBy query.fetchTree := by
  obtain ⟨htest, horder, _⟩ := exists_stages_of_ofQuery hpipeline
  obtain ⟨_, _, _, hsame, _⟩ := Draft.options_of_build h
  constructor
  · intro test hsome
    rw [hsome] at htest
    cases hfilter : query.effectivePredicate with
    | none => simp [hfilter, Test.ofPredicate?] at htest
    | some predicate =>
      rw [hfilter] at htest
      obtain ⟨found, hfound, heq⟩ := map_eq_ok_iff.mp htest
      obtain rfl := Option.some.inj heq
      exact Test.coveredBy_ofPredicate predicate hfound Schema.outerSegments_empty rfl
        (reaches_effectivePredicate h hfilter)
  · cases hclause : query.order with
    | none =>
      rw [hclause] at horder
      rw [← Except.ok.inj horder]
      intro key hkey
      cases hkey
    | some clause =>
      rw [hclause] at horder
      refine Order.coveredBy_ofClause horder fun path hpath segments hsegments => ?_
      refine Draft.covers_fetchTree h (List.mem_append_right _ ?_) hsegments
      rw [← hsame, hclause]
      exact hpath

/-- The filter of a built query has the same verdict on a record and on what is fetched of
it, unless it searches a text in a list. -/
theorem admits_shape_fetchTree {draft : Draft} {schema : Schema} {settings : BuildSettings}
    {query : Query} (hbuild : draft.build schema settings = .ok query)
    (hschema : schema.NoRelationshipNamed identityField) {dates : DateStyle}
    (hdates : dates.ReadsNoList) {pipeline : Pipeline}
    (hpipeline : ofQuery schema dates query = .ok pipeline) {record : Record}
    (hsearch : ∀ test, pipeline.test = some test → test.SearchesNoList record) :
    pipeline.admits (shape query.fetchTree record) = pipeline.admits record := by
  obtain ⟨_, _, hsame⟩ := exists_stages_of_ofQuery hpipeline
  unfold admits
  cases hsome : pipeline.test with
  | none => rfl
  | some test =>
    exact Test.passes_shape (hsame ▸ hdates) test (Draft.tidy_fetchTree hbuild)
      (Draft.keepsIdentity_fetchTree hschema hbuild)
      ((coveredBy_fetchTree hbuild hpipeline).1 test hsome) record (hsearch test hsome)

/-- The order of a built query compares records and what is fetched of them in the same
way. -/
theorem compare_shape_fetchTree {draft : Draft} {schema : Schema} {settings : BuildSettings}
    {query : Query} (hbuild : draft.build schema settings = .ok query)
    (hschema : schema.NoRelationshipNamed identityField) {dates : DateStyle}
    {pipeline : Pipeline} (hpipeline : ofQuery schema dates query = .ok pipeline)
    (a b : Record) :
    pipeline.order.compare (shape query.fetchTree a) (shape query.fetchTree b) =
      pipeline.order.compare a b :=
  Order.compare_shape (Draft.tidy_fetchTree hbuild)
    (Draft.keepsIdentity_fetchTree hschema hbuild) (coveredBy_fetchTree hbuild hpipeline).2 a b

/-- What is fetched for a built query suffices to filter and to order: the filter has the
same verdict on a record and on what is fetched of it, the order compares records and what
is fetched of them in the same way, and so the same positions are kept in the same order. -/
theorem fetchTree_suffices {draft : Draft} {schema : Schema} {settings : BuildSettings}
    {query : Query} (hbuild : draft.build schema settings = .ok query)
    (hschema : schema.NoRelationshipNamed identityField) {dates : DateStyle}
    (hdates : dates.ReadsNoList) {pipeline : Pipeline}
    (hpipeline : ofQuery schema dates query = .ok pipeline) {records : List Record}
    (hsearch : ∀ test, pipeline.test = some test →
      ∀ record ∈ records, test.SearchesNoList record) :
    (∀ record ∈ records,
        pipeline.admits (shape query.fetchTree record) = pipeline.admits record) ∧
      (∀ a b, pipeline.order.compare (shape query.fetchTree a) (shape query.fetchTree b) =
        pipeline.order.compare a b) ∧
      pipeline.ranking (records.map (shape query.fetchTree)) = pipeline.ranking records := by
  have hadmits : ∀ record ∈ records,
      pipeline.admits (shape query.fetchTree record) = pipeline.admits record :=
    fun record hrecord => admits_shape_fetchTree hbuild hschema hdates hpipeline
      fun test hsome => hsearch test hsome record hrecord
  have hcompare := compare_shape_fetchTree hbuild hschema hpipeline
  exact ⟨hadmits, hcompare, ranking_map hadmits hcompare⟩

/-- The steps of a query for the employees with a text in their name and an order above a
price, the oldest first. -/
def buyerSteps : List Step :=
  [.ofType "employee", .select "name", .orderBy "age desc",
    .filter (.group .and [.contains "name" "va",
      .quantified "orders" .any (.simple "price" .gt (.int 5))])]

/-- An employee with an order, and one without. -/
def buyers : List Record :=
  [[("age", .int 41), ("id", .string "e1"), ("name", .string "Ivan"),
      ("orders", .list [.record [("id", .string "o1"), ("price", .int 9)]])],
    [("id", .string "e2"), ("name", .string "Olga")]]

/-- The test of that query. -/
def buyerTest : Test :=
  .group .and [.contains ["name"] "va",
    .quantified ["orders"] .any
      (.compare (.path ["price"]) .gt (.fixed (.int 5)) .values)]

theorem fetchTree_suffices_buyers :
    Sample.schema.NoRelationshipNamed identityField ∧
      ∃ query pipeline, (Draft.ofSteps buyerSteps).build Sample.schema = .ok query ∧
        ofQuery Sample.schema .standard query = .ok pipeline ∧
        pipeline.test = some buyerTest ∧ (∀ record ∈ buyers, buyerTest.SearchesNoList record) ∧
        pipeline.ranking (buyers.map (shape query.fetchTree)) = pipeline.ranking buyers := by
  have hschema := Sample.noRelationshipNamed_identityField
  obtain ⟨query, hbuild⟩ : ∃ query,
      (Draft.ofSteps buyerSteps).build Sample.schema = .ok query :=
    exists_eq_ok_of_isOk (by decide +kernel)
  obtain ⟨htype, hidentity, hpredicate, hclause, _⟩ := Draft.options_of_build hbuild
  have hparse : OrderClause.parse "age desc" = .ok ⟨[⟨"age", some .descending⟩]⟩ := by
    decide +kernel
  have hemployee : query.entityType = "employee" := by
    simpa [Draft.ofSteps, Draft.steps, Draft.step, Draft.attempt, Draft.addPredicate,
      buyerSteps, hparse, Except.map] using htype.symm
  have hfilter : query.effectivePredicate = some (.group .and [.contains "name" "va",
      .quantified "orders" .any (.simple "price" .gt (.int 5))]) := by
    rw [Query.effectivePredicate, Query.identityPredicate, hidentity, hpredicate]
    simp [Draft.ofSteps, Draft.steps, Draft.step, Draft.attempt, Draft.addPredicate,
      Predicate.conjoin?, buyerSteps, hparse, Except.map]
  have htest : Test.ofPredicate Sample.schema (.group .and [.contains "name" "va",
      .quantified "orders" .any (.simple "price" .gt (.int 5))]) "employee" = .ok buyerTest := by
    have hname : checkedPath Sample.schema "employee" "name" = .ok ["name"] := by decide +kernel
    have hlower : Text.lowercase "va" = "va" := by decide +kernel
    have horders : checkedPath Sample.schema "employee" "orders" = .ok ["orders"] := by
      decide +kernel
    have hcollection : Sample.schema.resolveCollection "employee" "orders" =
        .ok (.related "employee" { name := "orders", kind := .hasMany, target := "order" }) := by
      decide +kernel
    have hprice : checkedPath Sample.schema "order" "price" = .ok ["price"] := by decide +kernel
    simp only [Test.ofPredicate, Test.ofMembers, hname, hlower, hcollection, horders]
    simp [bind, Except.bind, pure, Except.pure, Predicate.simple, Test.ofPredicate,
      Test.ofComparison, Source.ofOperand, Field.target, Field.target?, hprice, Except.map,
      buyerTest]
  obtain ⟨order, horder⟩ : ∃ order, Order.ofClause? Sample.schema "employee" query.order =
      .ok order := by
    refine exists_eq_ok_of_isOk ?_
    rw [hclause]
    decide +kernel
  obtain ⟨pipeline, hpipeline⟩ : ∃ pipeline,
      ofQuery Sample.schema .standard query = .ok pipeline := by
    rw [ofQuery, hemployee, hfilter, Test.ofPredicate?, htest, horder]
    exact ⟨_, rfl⟩
  have hsome : pipeline.test = some buyerTest := by
    obtain ⟨hfound, _⟩ := exists_stages_of_ofQuery hpipeline
    rw [hemployee, hfilter, Test.ofPredicate?, htest] at hfound
    exact (Except.ok.inj hfound).symm
  have hsearch : ∀ record ∈ buyers, buyerTest.SearchesNoList record := by
    intro record hrecord
    simp only [buyers, List.mem_cons, List.not_mem_nil, or_false] at hrecord
    refine ⟨?_, fun _ _ => trivial, trivial⟩
    rw [Test.SearchesNoList]
    rcases hrecord with rfl | rfl <;> decide +kernel
  refine ⟨hschema, query, pipeline, hbuild, hpipeline, hsome, hsearch, ?_⟩
  refine (fetchTree_suffices hbuild hschema DateStyle.readsNoList_standard hpipeline ?_).2.2
  intro test htest
  obtain rfl := Option.some.inj (hsome.symm.trans htest)
  exact hsearch

end Pipeline

end Rows

end EntityQuery
