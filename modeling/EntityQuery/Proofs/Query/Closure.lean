import EntityQuery.Proofs.Query.Trees

/-!
# Everything within reach

A query without any choice of fields, without a filter and without an order wants every field
that can be reached over a bounded number of listed relationships, and the identity of every
record on the way. The relationships may lead in circles: the bound counts them one by one, and
a name that is listed twice leads on from both of its fields.
-/

namespace EntityQuery

open SelectTree

namespace Schema

variable {schema : Schema} {type : String} {listed : List Field} {depth : Nat}
  {path : List String}

/-- A chain of listed relationships from a type, each leading to the type of the next one, and
the type where it ends. -/
inductive Chain (schema : Schema) : String → List Field → String → Prop where
  /-- The empty chain ends where it begins. -/
  | here (type : String) : Chain schema type [] type
  /-- A chain goes on from the type of the records that a listed relationship leads to. -/
  | next {type target : String} {listed chain : List Field} {field : Field}
      (hlisted : schema.fields type = .ok listed) (hfield : field ∈ listed)
      (hrelationship : field.isRelationship = true)
      (hchain : Chain schema field.target chain target) :
      Chain schema type (field :: chain) target

/-- A path is within reach of a type if it follows so many listed relationships at most and ends
at a listed field or at the identity. -/
def WithinReach (schema : Schema) (depth : Nat) (type : String) (path : List String) : Prop :=
  ∃ chain target, schema.Chain type chain target ∧ chain.length ≤ depth ∧
    ((∃ listed, schema.fields target = .ok listed ∧
        ∃ field ∈ listed, path = chain.map Field.name ++ [field.name]) ∨
      path = chain.map Field.name ++ [identityField])

/-- The identity is within reach, however far that goes. -/
theorem withinReach_identity (schema : Schema) (depth : Nat) (type : String) :
    schema.WithinReach depth type [identityField] :=
  ⟨[], type, .here type, Nat.zero_le depth, .inr rfl⟩

/-- A path within reach has a segment. -/
theorem WithinReach.ne_nil (h : schema.WithinReach depth type path) : path ≠ [] := by
  obtain ⟨chain, target, _, _, ⟨_, _, field, _, rfl⟩ | rfl⟩ := h
  · simp
  · simp

/-- A path within reach has no more segments than the bound and one. -/
theorem WithinReach.length_le (h : schema.WithinReach depth type path) :
    path.length ≤ depth + 1 := by
  obtain ⟨chain, target, _, hlength, ⟨_, _, field, _, rfl⟩ | rfl⟩ := h
  · simpa using hlength
  · simpa using hlength

/-- Without relationships, only the listed fields and the identity are within reach. -/
theorem withinReach_zero (hlisted : schema.fields type = .ok listed) :
    schema.WithinReach 0 type path ↔
      path = [identityField] ∨ ∃ field ∈ listed, path = [field.name] := by
  constructor
  · rintro ⟨chain, target, hchain, hlength, hpath⟩
    obtain rfl := List.length_eq_zero_iff.mp (Nat.le_zero.mp hlength)
    cases hchain
    rcases hpath with ⟨other, hother, field, hfield, rfl⟩ | rfl
    · obtain rfl := Except.ok.inj (hlisted.symm.trans hother)
      exact .inr ⟨field, hfield, rfl⟩
    · exact .inl rfl
  · rintro (rfl | ⟨field, hfield, rfl⟩)
    · exact withinReach_identity schema 0 type
    · exact ⟨[], type, .here type, Nat.le_refl 0, .inl ⟨listed, hlisted, field, hfield, rfl⟩⟩

/-- A path is that of a field, or leads on from there to what is within reach. -/
def BeginsAt (schema : Schema) (depth : Nat) (field : Field) (path : List String) : Prop :=
  path = [field.name] ∨ field.isRelationship = true ∧
    ∃ rest, path = field.name :: rest ∧ schema.WithinReach depth field.target rest

/-- With one more relationship, what begins at a listed field is within reach. -/
theorem withinReach_succ (hlisted : schema.fields type = .ok listed) :
    schema.WithinReach (depth + 1) type path ↔
      path = [identityField] ∨ ∃ field ∈ listed, schema.BeginsAt depth field path := by
  constructor
  · rintro ⟨chain, target, hchain, hlength, hpath⟩
    cases hchain with
    | here =>
      rcases hpath with ⟨other, hother, field, hfield, rfl⟩ | rfl
      · obtain rfl := Except.ok.inj (hlisted.symm.trans hother)
        exact .inr ⟨field, hfield, .inl rfl⟩
      · exact .inl rfl
    | @next _ _ other chain field hother hfield hrelationship hchain =>
      obtain rfl := Except.ok.inj (hlisted.symm.trans hother)
      have hshorter : chain.length ≤ depth := Nat.le_of_succ_le_succ hlength
      refine .inr ⟨field, hfield, .inr ⟨hrelationship, ?_⟩⟩
      rcases hpath with ⟨inner, hinner, last, hlast, rfl⟩ | rfl
      · exact ⟨_, rfl, chain, target, hchain, hshorter, .inl ⟨inner, hinner, last, hlast, rfl⟩⟩
      · exact ⟨_, rfl, chain, target, hchain, hshorter, .inr rfl⟩
  · rintro (rfl | ⟨field, hfield, rfl | ⟨hrelationship, rest, rfl, chain, target, hchain, hlength,
      hrest⟩⟩)
    · exact withinReach_identity schema _ type
    · exact ⟨[], type, .here type, Nat.zero_le _, .inl ⟨listed, hlisted, field, hfield, rfl⟩⟩
    · refine ⟨field :: chain, target, .next hlisted hfield hrelationship hchain,
        Nat.succ_le_succ hlength, ?_⟩
      rcases hrest with ⟨inner, hinner, last, hlast, rfl⟩ | rfl
      · exact .inl ⟨inner, hinner, last, hlast, rfl⟩
      · exact .inr rfl

end Schema

namespace SelectTree

/-- Wanting fields adds their paths. -/
theorem covers_foldl_addSelect {listed : List Field} {tree : SelectTree} {path : List String} :
    (listed.foldl (fun tree field => tree.addSelect field.name) tree).covers path = true ↔
      tree.covers path = true ∨ ∃ field ∈ listed, path = [field.name] := by
  induction listed generalizing tree with
  | nil => simp
  | cons field listed ih =>
    rw [List.foldl_cons, ih, covers_addSelect, or_assoc]
    simp only [List.mem_cons, or_and_right, exists_or, exists_eq_left]

/-- A tidy tree reaches the identity already. -/
theorem covers_or_identity {tree : SelectTree} (htree : Everywhere Tidy tree) {path : List String}
    {other : Prop} : tree.covers path = true ∨ path = [identityField] ∨ other ↔
      tree.covers path = true ∨ other := by
  constructor
  · rintro (hcovers | rfl | hother)
    · exact .inl hcovers
    · exact .inl ((covers_singleton tree identityField).mpr htree.here.identity_mem)
    · exact .inr hother
  · exact Or.imp_right .inr

/-- Steps that each add paths to a tidy tree add the paths of all of them. -/
theorem covers_foldlM {ε α : Type} {step : SelectTree → α → Except ε SelectTree}
    {added : α → List String → Prop} {items : List α} {tree out : SelectTree}
    (hstep : ∀ item ∈ items, ∀ before after, step before item = .ok after →
      Everywhere Tidy before → Everywhere Tidy after ∧ ∀ path, path ≠ [] →
        (after.covers path = true ↔ before.covers path = true ∨ added item path))
    (h : items.foldlM step tree = .ok out) (htree : Everywhere Tidy tree) {path : List String}
    (hpath : path ≠ []) :
    out.covers path = true ↔ tree.covers path = true ∨ ∃ item ∈ items, added item path := by
  induction items generalizing tree with
  | nil =>
    obtain rfl := pure_eq_ok_iff.mp h
    simp
  | cons item items ih =>
    rw [List.foldlM_cons] at h
    obtain ⟨next, hnext, h⟩ := bind_eq_ok_iff.mp h
    obtain ⟨hnextTidy, hcovers⟩ := hstep item List.mem_cons_self tree next hnext htree
    rw [ih (fun other hother => hstep other (List.mem_cons_of_mem item hother)) h hnextTidy,
      hcovers path hpath, or_assoc]
    simp only [List.mem_cons, or_and_right, exists_or, exists_eq_left]

end SelectTree

namespace Schema

variable {schema : Schema}

/-- Wanting a listed relationship with everything that is within reach behind it adds what begins
at the relationship. -/
theorem covers_expandWith_addClosure {depth : Nat} {field : Field} {tree fresh out : SelectTree}
    (hclosure : ∀ before after, schema.addClosure depth field.target before = .ok after →
      Everywhere Tidy before → ∀ path, path ≠ [] →
        (after.covers path = true ↔
          before.covers path = true ∨ schema.WithinReach depth field.target path))
    (hrelationship : field.isRelationship = true) (hfresh : schema.freshTree field = .ok fresh)
    (h : tree.expandWith field.name fresh (schema.addClosure depth field.target) = .ok out)
    (htree : Everywhere Tidy tree) {path : List String} (hpath : path ≠ []) :
    out.covers path = true ↔ tree.covers path = true ∨ schema.BeginsAt depth field path := by
  obtain ⟨keyName, _, rfl⟩ := freshTree_eq_ok hfresh
  have hcovers : out.covers path = true ↔ tree.covers path = true ∨ path = [field.name] ∨
      ∃ rest, rest ≠ [] ∧ path = field.name :: rest ∧
        (rest = [identityField] ∨ schema.WithinReach depth field.target rest) := by
    refine covers_expandWith htree (fun _ => covers_root) ?_ h hpath
    intro before after hchange hbefore
    refine hclosure before after hchange ?_
    rw [hbefore]
    exact htree.childOr field.name ((tidy_keptByBuilding fun _ => True).everywhere_root _ _ _)
  rw [hcovers]
  refine or_congr_right (or_congr_right ⟨?_, ?_⟩)
  · rintro ⟨rest, _, rfl, rfl | hrest⟩
    · exact ⟨hrelationship, _, rfl, withinReach_identity schema depth field.target⟩
    · exact ⟨hrelationship, rest, rfl, hrest⟩
  · rintro ⟨_, rest, rfl, hrest⟩
    exact ⟨rest, hrest.ne_nil, rfl, .inr hrest⟩

/-- Wanting everything within reach adds exactly the paths within reach. -/
theorem covers_addClosure {depth : Nat} {type : String} {tree out : SelectTree}
    (h : schema.addClosure depth type tree = .ok out) (htree : Everywhere Tidy tree)
    {path : List String} (hpath : path ≠ []) :
    out.covers path = true ↔ tree.covers path = true ∨ schema.WithinReach depth type path := by
  induction depth generalizing type tree out path with
  | zero =>
    rw [addClosure] at h
    obtain ⟨listed, hlisted, h⟩ := bind_eq_ok_iff.mp h
    obtain rfl := pure_eq_ok_iff.mp h
    rw [covers_foldl_addSelect, withinReach_zero hlisted, covers_or_identity htree]
  | succ depth ih =>
    rw [addClosure] at h
    obtain ⟨listed, hlisted, h⟩ := bind_eq_ok_iff.mp h
    rw [withinReach_succ hlisted, covers_or_identity htree]
    refine covers_foldlM ?_ h htree hpath
    intro field _ before after hstep hbefore
    have hkept := tidy_keptByBuilding fun _ => True
    cases hrelationship : field.isRelationship with
    | false =>
      simp only [hrelationship, Bool.false_eq_true, if_false, pure_eq_ok_iff] at hstep
      subst hstep
      refine ⟨hkept.everywhere_addSelect hbefore field.name, fun path _ => ?_⟩
      simp [covers_addSelect, BeginsAt, hrelationship]
    | true =>
      simp only [hrelationship, if_true] at hstep
      obtain ⟨fresh, hfresh, hstep⟩ := bind_eq_ok_iff.mp hstep
      refine ⟨?_, fun path => covers_expandWith_addClosure
        (fun before after hchange hinner path => ih hchange hinner) hrelationship hfresh hstep
        hbefore⟩
      obtain ⟨keyName, _, rfl⟩ := freshTree_eq_ok hfresh
      exact hkept.everywhere_expandWith hbefore trivial (hkept.everywhere_root _ _ _)
        (fun _ _ hchange => everywhere_addClosure hkept (fun _ _ _ _ => trivial) hchange) hstep

end Schema

namespace Draft

variable {schema : Schema} {draft : Draft} {settings : BuildSettings} {query : Query}

/-- A draft with neither a choice of fields nor a filter nor an order. -/
structure WantsEverything (draft : Draft) : Prop where
  /-- No path was asked for. -/
  select : draft.select = []
  /-- No projection was asked for. -/
  projectionName : draft.projectionName = none
  /-- There is no filter. -/
  predicate : draft.predicate = none
  /-- There is no order. -/
  order : draft.order = none

/-- The trees of a query that wants everything: nothing but the identity, and everything within
reach. -/
theorem WantsEverything.trees_of_build (hwants : draft.WantsEverything)
    (h : draft.build schema settings = .ok query) :
    ∃ keyName, query.selectTree = .root query.entityType keyName ∧
      schema.addClosure settings.expandDepth query.entityType (.root query.entityType keyName) =
        .ok query.extendTree := by
  obtain ⟨keyName, selectStart, extendStart, trace⟩ := exists_trace_of_build h
  have hmode : draft.selectMode = .all := by
    rw [selectMode, hwants.projectionName, hwants.select]
  have hpaths : draft.referencedPaths = [] := by
    rw [referencedPaths, hwants.predicate, hwants.order]
    rfl
  have hprojected := trace.projected
  rw [addProjection, hwants.projectionName] at hprojected
  obtain rfl := Except.ok.inj hprojected
  have hselected := trace.selected
  rw [hwants.select] at hselected
  have hextended := trace.extended
  rw [hpaths] at hextended
  have hreached := trace.reached
  rw [reachTree, if_pos hmode] at hreached
  refine ⟨keyName, (pure_eq_ok_iff.mp hselected).symm, ?_⟩
  rw [← pure_eq_ok_iff.mp hextended]
  exact hreached

/-- A query that makes no choice of fields and has neither a filter nor an order wants exactly
the paths within reach of its type. So no chain of expanded relationships is longer than the
settings allow, even if they lead in circles. -/
theorem covers_fetchTree_iff_withinReach (h : draft.build schema settings = .ok query)
    (hwants : draft.WantsEverything) :
    (∀ path, path ≠ [] → (query.fetchTree.covers path = true ↔
        schema.WithinReach settings.expandDepth query.entityType path)) ∧
      ∀ path node, query.fetchTree.below? path = some node →
        path.length ≤ settings.expandDepth := by
  obtain ⟨keyName, hselect, hextend⟩ := hwants.trees_of_build h
  have hroot : Everywhere Tidy (.root query.entityType keyName) :=
    (tidy_keptByBuilding fun _ => True).everywhere_root _ _ _
  have hcovers : ∀ path, path ≠ [] → (query.fetchTree.covers path = true ↔
      schema.WithinReach settings.expandDepth query.entityType path) := by
    intro path hpath
    rw [covers_fetchTree_iff h hpath, Schema.covers_addClosure hextend hroot hpath, hselect,
      ← or_assoc, or_self]
    refine or_iff_right_of_imp fun hcovers => ?_
    rw [(covers_root hpath).mp hcovers]
    exact schema.withinReach_identity _ _
  refine ⟨hcovers, fun path node hnode => ?_⟩
  have hidentityWanted : query.fetchTree.covers (path ++ [identityField]) = true :=
    (covers_append (List.cons_ne_nil _ _)).mpr ⟨node, hnode, (covers_singleton node _).mpr
      ((tidy_fetchTree h).below? hnode).here.identity_mem⟩
  have hlength := ((hcovers _ (by simp)).mp hidentityWanted).length_le
  simpa using hlength

/-- Managers are employees and have managers in turn, but a bound of two relationships ends the
chain at the second one, where the third is wanted without being expanded. -/
theorem covers_fetchTree_iff_withinReach_staff :
    ∃ query, (ofSteps [.ofType "employee"]).build Sample.schema ⟨2⟩ = .ok query ∧
      (ofSteps [.ofType "employee"]).WantsEverything ∧
      query.fetchTree.covers ["manager", "manager", "manager"] = true ∧
      Sample.schema.WithinReach 2 query.entityType ["manager", "manager", "manager"] ∧
      query.fetchTree.below? ["manager", "manager", "manager"] = none := by
  obtain ⟨query, hbuild⟩ : ∃ query,
      (ofSteps [.ofType "employee"]).build Sample.schema ⟨2⟩ = .ok query :=
    exists_eq_ok_of_isOk (by decide +kernel)
  have hwants : (ofSteps [.ofType "employee"]).WantsEverything := ⟨rfl, rfl, rfl, rfl⟩
  have hreached : ((ofSteps [.ofType "employee"]).build Sample.schema ⟨2⟩).map
      (fun query => query.fetchTree.covers ["manager", "manager", "manager"]) = .ok true := by
    decide +kernel
  rw [hbuild] at hreached
  have hcovers := Except.ok.inj hreached
  obtain ⟨hiff, hbound⟩ := covers_fetchTree_iff_withinReach hbuild hwants
  refine ⟨query, hbuild, hwants, hcovers, (hiff _ (by simp)).mp hcovers, ?_⟩
  by_contra hsome
  obtain ⟨node, hnode⟩ := Option.ne_none_iff_exists'.mp hsome
  have hlength : 3 ≤ 2 := hbound _ node hnode
  omega

end Draft

end EntityQuery
